import IqTape.Main
import IqTape.Proofs.Tape.Frame
import IqTape.Proofs.Tape.Codec
import IqTape.Proofs.Tape.Header
import IqTape.Proofs.Tape.Window
import IqTape.Proofs.Tape.Damage
import IqTape.Proofs.Lz4.Reach
import IqTape.Proofs.Tape.Payload
import IqTape.Proofs.Tape.Sink
import IqTape.Proofs.Tape.Writer
import IqTape.Proofs.Tape.RoundTrip
import IqTape.Proofs.Capture.Cutter
import IqTape.Proofs.Capture.Queue
import IqTape.Proofs.Capture.Session
import IqTape.Proofs.Capture.Reblocking
import IqTape.Proofs.Capture.Conservation
import IqTape.Proofs.Capture.Dates
import IqTape.Proofs.Tape.Truncation
import IqTape.Proofs.Capture.Channel
import IqTape.Proofs.Replay.Datagram
import IqTape.Proofs.Replay.Pacing
import IqTape.Proofs.Replay.Sending
import IqTape.Proofs.Tape.FullSink
import IqTape.Proofs.Bytes.Burst
import IqTape.Proofs.Tape.HeaderCodec
import IqTape.Proofs.Tape.Alteration
import IqTape.Proofs.Tape.Accounting
import IqTape.Proofs.Replay.Promptness
import IqTape.Proofs.Lz4.Written
import IqTape.Proofs.Tape.SizeGuard
import IqTape.Proofs.Control.Stopping
import IqTape.Proofs.Capture.Oversize
import IqTape.Proofs.Config.FileOption
import IqTape.Proofs.Capture.Backlog
import IqTape.Proofs.Tape.Finishing
import IqTape.Proofs.Capture.StopRequest
import IqTape.Proofs.Capture.Recorded
import IqTape.Proofs.Replay.Sendable
import IqTape.Proofs.Tape.Packing
import IqTape.Proofs.Tape.Buffer
import IqTape.Proofs.Tape.ForgedLength
import IqTape.Proofs.Number.Nearest
import IqTape.Proofs.Number.Arithmetic
import IqTape.Proofs.Replay.Horizon
import IqTape.Proofs.Number.Exact
import IqTape.Proofs.Number.Decimal
import IqTape.Proofs.Config.Frequency
import IqTape.Proofs.Config.Target
import IqTape.Proofs.Config.Precedence
import IqTape.Proofs.Config.Reload
import IqTape.Proofs.Replay.DatagramCodec
import IqTape.Proofs.Tape.Opening
import IqTape.Proofs.Replay.Passes
import IqTape.Proofs.Json.Compact
import IqTape.Proofs.Control.Lines
import IqTape.Proofs.Control.Conversation
import IqTape.Proofs.Progress

import IqTape.Tape.Header
import IqTape.Tape.Payload
import IqTape.Tape.Sink

/-!
# Writing a tape

A writer puts a header at the start of a sink, appends the frames of the blocks
it is given, and when it is finished goes back to replace the header by one with
the totals.  A tape that was never finished keeps its first header, which says
that the session is open; its blocks can be read all the same.

## Main definitions

* `Writer` — a sink with what has been written to it.
* `Writer.attach`, `Writer.create` — start a tape.
* `Writer.append`, `Writer.finish`, `Writer.close` — go on with it and end it.
-/

namespace IqTape

/-- A tape being written. -/
structure Writer where
  /-- Whether a tape has been started and not closed. -/
  isOpen : Bool
  sink : Sink
  header : Header
  /-- How many samples have been appended. -/
  samples : UInt64
  /-- How many blocks have been appended. -/
  blocks : UInt64
  /-- How many bytes have been written, the first header included. -/
  bytes : UInt64
  /-- The name of the last file that was created. -/
  name : String
  /-- What packs the payloads of a tape whose payloads are packed. -/
  packer : Lz4.Packer
  deriving Inhabited

namespace Writer

/-- Why a tape could not be started. -/
inductive OpenFault
  /-- The file could not be created. -/
  | notCreated (name : String)
  /-- The header could not be written. -/
  | headerNotWritten
  deriving DecidableEq, Repr

/-- What is said about a tape that could not be started. -/
def OpenFault.notice : OpenFault → String
  | notCreated name => "Error: Cannot open output file: " ++ name ++ "\n"
  | headerNotWritten => "Error: Failed to write file header\n"

/-- Why a tape could not be finished. -/
inductive FinishFault
  | notOpen
  /-- The blocks could not be passed on. -/
  | notFlushed
  /-- The sink does not move back to its start. -/
  | notRewound
  /-- The header could not be replaced. -/
  | headerNotWritten
  /-- The sink failed behind the header. -/
  | notForwarded
  deriving DecidableEq, Repr

/-- What is said about a tape that could not be finished. -/
def FinishFault.notice : FinishFault → String
  | headerNotWritten => "Error: Failed to write file header\n"
  | _ => ""

/-- A writer that has not started a tape. -/
def idle : Writer := ⟨false, Sink.empty, Header.blank, 0, 0, 0, "", .greedy⟩

/-- Release the sink; the header stays as it is. -/
def close (w : Writer) : Writer :=
  if w.isOpen then { w with isOpen := false, sink := w.sink.flush } else w

/-- Start a tape on a sink.  Its header says that the session is open. -/
def attach (w : Writer) (sink : Sink) (header : Header) : Writer × Option OpenFault :=
  let header := { header with total := 0, finish := 0 }
  let sink := sink.put header.encode
  let w : Writer := ⟨true, sink, header, 0, 0, 0, w.name, w.packer⟩
  if sink.good then ({ w with bytes := Header.size.toUInt64 }, none)
  else ({ w with isOpen := false }, some .headerNotWritten)

/-- Start a tape in a new file; `none` is a file that could not be created. -/
def create (w : Writer) (name : String) (file : Option Sink) (header : Header) :
    Writer × Option OpenFault :=
  match file with
  | none => (w.close, some (.notCreated name))
  | some sink => attach { w.close with name := name } sink header

/-- The block as it goes onto a tape: packed if the tape's payloads are. -/
def prepare (packer : Lz4.Packer) (form : PayloadForm) (b : Block) : Except Fault Block :=
  if form.packs then b.pack packer else .ok b

def append (w : Writer) (b : Block) : Writer × Option Fault :=
  if !w.isOpen then (w, some .io)
  else
    match prepare w.packer w.header.form b with
    | .error f => (w, some f)
    | .ok b =>
      match b.encode with
      | .error f => (w, some f)
      | .ok frame =>
        let sink := w.sink.put frame
        if !sink.good then ({ w with sink := sink }, some .io)
        else
          ({ w with
              sink := sink
              samples := w.samples + b.count.toUInt64
              blocks := w.blocks + 1
              bytes := w.bytes + b.frameSize.toUInt64 }, none)

/-- Write the totals and the end of the session, a second since the epoch, into
the header. -/
def finish (w : Writer) (second : UInt64) : Writer × Option FinishFault :=
  if !w.isOpen then (w, some .notOpen)
  else
    let flushed := w.sink.flush
    if !flushed.good then ({ w with sink := flushed }, some .notFlushed)
    else
      let header := { w.header with total := w.samples, finish := second }
      let rewound := flushed.rewind
      if !rewound.good then ({ w with sink := rewound, header := header }, some .notRewound)
      else
        let written := rewound.put header.encode
        if !written.good then
          ({ w with sink := written, header := header }, some .headerNotWritten)
        else
          let sink := written.forward.flush
          ({ w with sink := sink, header := header },
            if sink.good then none else some .notForwarded)

end Writer

end IqTape

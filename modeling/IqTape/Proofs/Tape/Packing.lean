import IqTape.Proofs.Tape.Payload

/-!
# Packing a block where it is

A block is packed and unpacked in place.  The other form of its payload is built beside it,
which may fail, and only then the new payload and the new flag are stored, one after the
other.  So a call that fails has not touched the block, and no other call finds it with the
payload of one form and the flag of the other.

## Main definitions

* `Packing` — the two calls; `Packing.apply` — what they make of a block.
* `Packing.perform` — a call in place, store by store.
* `Packing.act`, `Packing.after` — one call and a series of calls.

## Main results

* `Packing.act_eq` — a call in place does to the block what `apply` makes of it, or nothing.
* `Packing.act_of_unpack` — a block that stands for a raw one goes on standing for it.
* `Packing.reversible_in_place` — **packing in place can be undone**, whatever the calls.
-/

namespace IqTape

/-- A call on a block. -/
inductive Packing
  | pack
  | unpack
  deriving DecidableEq, Repr, Inhabited

namespace Packing

/-- Whether the call asks for the packed form. -/
def wanted : Packing → Bool
  | pack => true
  | unpack => false

/-- The other form of a payload. -/
def convert (packer : Lz4.Packer) : Packing → Bytes → Option Bytes
  | pack, raw => Payload.pack raw packer
  | unpack, packed => (Payload.unpack packed).toOption

/-- What a call makes of a block. -/
def apply (packer : Lz4.Packer) : Packing → Block → Except Fault Block
  | pack, b => b.pack packer
  | unpack, b => b.unpack

/-- What a call does to the block that is there, once it has looked at it. -/
def store (packer : Lz4.Packer) (call : Packing) (b : Block) : ExceptT Fault (StateM Block) Unit :=
  if b.packed = call.wanted then pure ()
  else
    match call.convert packer b.payload with
    | none => throw .compression
    | some payload => do
      modify fun b => { b with payload := payload }
      modify fun b => { b with packed := call.wanted }

/-- A call in place. -/
def perform (packer : Lz4.Packer) (call : Packing) : ExceptT Fault (StateM Block) Unit := do
  call.store packer (← get)

/-- What a call says, and the block that is there then. -/
def act (packer : Lz4.Packer) (call : Packing) (b : Block) : Except Fault Unit × Block :=
  ((call.perform packer).run.run b).run

/-- The block that is there after some calls. -/
def after (packer : Lz4.Packer) (b : Block) (calls : List Packing) : Block :=
  calls.foldl (fun b call => (call.act packer b).2) b

variable {packer : Lz4.Packer} {call : Packing} {b raw : Block}

/-! ### One call -/

theorem act_eq_store (packer : Lz4.Packer) (call : Packing) (b : Block) :
    call.act packer b = ((call.store packer b).run.run b).run := rfl

/-- A block that has the form already is left alone. -/
theorem act_of_wanted (h : b.packed = call.wanted) : call.act packer b = (.ok (), b) := by
  rw [act_eq_store, store, if_pos h]
  rfl

theorem act_of_convert {payload : Bytes} (h : b.packed ≠ call.wanted)
    (hc : call.convert packer b.payload = some payload) :
    call.act packer b = (.ok (), { b with payload := payload, packed := call.wanted }) := by
  rw [act_eq_store, store, if_neg h, hc]
  rfl

/-- A call that cannot build the other form has stored nothing. -/
theorem act_of_failure (h : b.packed ≠ call.wanted) (hc : call.convert packer b.payload = none) :
    call.act packer b = (.error .compression, b) := by
  rw [act_eq_store, store, if_neg h, hc]
  rfl

theorem apply_of_wanted (h : b.packed = call.wanted) : call.apply packer b = .ok b := by
  cases call with
  | pack => exact if_pos h
  | unpack =>
    have hraw : b.packed = false := h
    exact Block.unpack_raw hraw

theorem apply_of_convert (h : b.packed ≠ call.wanted) :
    call.apply packer b =
      match call.convert packer b.payload with
      | some payload => .ok { b with payload := payload, packed := call.wanted }
      | none => .error .compression := by
  cases call with
  | pack => exact if_neg h
  | unpack =>
    have hpacked : b.packed = true := by simpa [wanted] using h
    simp only [apply, Block.unpack, hpacked, convert, wanted]
    cases Payload.unpack b.payload <;> rfl

/-- **A call in place does to the block what it makes of it**, or leaves it alone. -/
theorem act_eq (packer : Lz4.Packer) (call : Packing) (b : Block) :
    call.act packer b =
      match call.apply packer b with
      | .ok made => (.ok (), made)
      | .error f => (.error f, b) := by
  by_cases h : b.packed = call.wanted
  · rw [act_of_wanted h, apply_of_wanted h]
  · rw [apply_of_convert h]
    cases hc : call.convert packer b.payload with
    | none => exact act_of_failure h hc
    | some payload => exact act_of_convert h hc

/-- What a call comes to: the block is left alone, or it is in the form asked for, with the time
and the count that it had. -/
theorem act_cases (packer : Lz4.Packer) (call : Packing) (b : Block) :
    (b.packed = call.wanted ∧ call.act packer b = (.ok (), b)) ∨
      (b.packed ≠ call.wanted ∧ call.act packer b = (.error .compression, b)) ∨
      b.packed ≠ call.wanted ∧ ∃ payload, call.act packer b =
        (.ok (), { b with payload := payload, packed := call.wanted }) := by
  by_cases h : b.packed = call.wanted
  · exact .inl ⟨h, act_of_wanted h⟩
  · cases hc : call.convert packer b.payload with
    | none => exact .inr (.inl ⟨h, act_of_failure h hc⟩)
    | some payload => exact .inr (.inr ⟨h, payload, act_of_convert h hc⟩)

/-! ### Any calls -/

/-- No call changes the time or the count of a block. -/
theorem act_keeps (packer : Lz4.Packer) (call : Packing) (b : Block) :
    (call.act packer b).2.timestamp = b.timestamp ∧ (call.act packer b).2.count = b.count := by
  rcases act_cases packer call b with ⟨-, h⟩ | ⟨-, h⟩ | ⟨-, payload, h⟩ <;> rw [h] <;>
    exact ⟨rfl, rfl⟩

theorem after_keeps (packer : Lz4.Packer) (b : Block) (calls : List Packing) :
    (after packer b calls).timestamp = b.timestamp ∧ (after packer b calls).count = b.count := by
  induction calls generalizing b with
  | nil => exact ⟨rfl, rfl⟩
  | cons call calls ih =>
    obtain ⟨htime, hcount⟩ := act_keeps packer call b
    obtain ⟨htime', hcount'⟩ := ih (call.act packer b).2
    exact ⟨htime'.trans htime, hcount'.trans hcount⟩

/-- A block that stands for a raw one is that block, or packed. -/
theorem eq_of_unpack (hu : b.unpack = .ok raw) (hb : b.packed = false) : b = raw := by
  rw [Block.unpack_raw hb, Except.ok.injEq] at hu
  exact hu

/-- **A block that stands for a raw one goes on standing for it**, and the call succeeds. -/
theorem act_of_unpack (hraw : raw.packed = false) (hmax : raw.payload.length ≤ Payload.maxRaw)
    (hr : packer.Rebuilds raw.payload) (call : Packing) (hu : b.unpack = .ok raw) :
    (call.act packer b).1 = .ok () ∧ (call.act packer b).2.unpack = .ok raw := by
  by_cases hw : b.packed = call.wanted
  · rw [act_of_wanted hw]
    exact ⟨rfl, hu⟩
  rw [act_eq]
  cases call with
  | pack =>
    have hb : b = raw := eq_of_unpack hu (by simpa [wanted] using hw)
    obtain ⟨payload, hpack⟩ : ∃ payload, Payload.pack raw.payload packer = some payload :=
      ⟨_, if_neg (Nat.not_lt.2 hmax)⟩
    have hstored : raw.pack packer = .ok { raw with payload := payload, packed := true } := by
      rw [Block.pack, hraw, hpack]
      rfl
    rw [hb, apply, hstored]
    exact ⟨rfl, (Block.unpack_pack hraw hstored hr).2⟩
  | unpack =>
    rw [apply, hu]
    exact ⟨rfl, Block.unpack_raw hraw⟩

theorem after_of_unpack (hraw : raw.packed = false)
    (hmax : raw.payload.length ≤ Payload.maxRaw) (hr : packer.Rebuilds raw.payload)
    (calls : List Packing) (hu : b.unpack = .ok raw) :
    (after packer b calls).unpack = .ok raw := by
  induction calls generalizing b with
  | nil => exact hu
  | cons call calls ih => exact ih (act_of_unpack hraw hmax hr call hu).2

/-- **Packing in place can be undone.**  After any calls on any block, another call leaves the
time and the count that the block had at first.  It changes nothing if the block is in the form
asked for, and nothing if it fails; else the block is in that form.  And if the block was raw and
no larger than what can be packed, no call fails, the block can be unpacked to what it was, and
it is what it was whenever it is raw. -/
theorem reversible_in_place (packer : Lz4.Packer) (b : Block) (calls : List Packing)
    (call : Packing) :
    let before := after packer b calls
    let said := (call.act packer before).1
    let now := (call.act packer before).2
    now = after packer b (calls ++ [call]) ∧
      now.timestamp = b.timestamp ∧ now.count = b.count ∧
      (before.packed = call.wanted → said = .ok () ∧ now = before) ∧
      (said = .ok () → now.packed = call.wanted) ∧
      (said ≠ .ok () → said = .error .compression ∧ now = before) ∧
      (b.packed = false → b.payload.length ≤ Payload.maxRaw → packer.Rebuilds b.payload →
        said = .ok () ∧ now.unpack = .ok b ∧ (now.packed = false → now = b)) := by
  intro before said now
  obtain ⟨htime, hcount⟩ := after_keeps packer b calls
  obtain ⟨htime', hcount'⟩ := act_keeps packer call before
  have hcases : (said = .ok () ∧ now.packed = call.wanted) ∨
      said = .error .compression ∧ now = before := by
    rcases act_cases packer call before with ⟨hw, h⟩ | ⟨-, h⟩ | ⟨-, payload, h⟩
    · exact .inl ⟨congrArg Prod.fst h, (congrArg (·.2.packed) h).trans hw⟩
    · exact .inr ⟨congrArg Prod.fst h, congrArg Prod.snd h⟩
    · exact .inl ⟨congrArg Prod.fst h, congrArg (·.2.packed) h⟩
  refine ⟨?_, htime'.trans htime, hcount'.trans hcount, ?_, ?_, ?_, ?_⟩
  · simp only [after, List.foldl_append, List.foldl_cons, List.foldl_nil, now, before]
  · intro hw
    have h : call.act packer before = (.ok (), before) := act_of_wanted hw
    exact ⟨congrArg Prod.fst h, congrArg Prod.snd h⟩
  · intro hsaid
    rcases hcases with ⟨-, hform⟩ | ⟨hfault, -⟩
    · exact hform
    · rw [hsaid] at hfault
      cases hfault
  · intro hsaid
    rcases hcases with ⟨hok, -⟩ | hfailed
    · exact absurd hok hsaid
    · exact hfailed
  · intro hraw hmax hr
    have hbefore : before.unpack = .ok b :=
      after_of_unpack hraw hmax hr calls (Block.unpack_raw hraw)
    obtain ⟨hok, hnow⟩ := act_of_unpack hraw hmax hr call hbefore
    exact ⟨hok, hnow, eq_of_unpack hnow⟩

/-- A raw block of silence, and one that is said to be packed but holds no packed block. -/
def silentBlock : Block := ⟨7, 6, List.replicate 24 0, false⟩

def garbledBlock : Block := ⟨7, 6, [24, 0, 0, 0, 255, 255], true⟩

/-- The silent block is packed, packed again and unpacked; the garbled one cannot be unpacked and
stays as it is, and packing it changes nothing. -/
theorem reversible_in_place_of_silentBlock :
    let packed := after .greedy silentBlock [pack, pack]
    silentBlock.packed = false ∧ silentBlock.payload.length ≤ Payload.maxRaw ∧
      Lz4.Packer.greedy.Rebuilds silentBlock.payload ∧
      packed.packed = true ∧ packed.payload ≠ silentBlock.payload ∧
      unpack.act .greedy packed = (.ok (), silentBlock) ∧
      (unpack.act .greedy garbledBlock).1 ≠ .ok () ∧
      (unpack.act .greedy garbledBlock).2 = garbledBlock ∧
      garbledBlock.packed = pack.wanted ∧ pack.act .greedy garbledBlock = (.ok (), garbledBlock) := by
  intro packed
  have hraw : silentBlock.packed = false := rfl
  have hmax : silentBlock.payload.length ≤ Payload.maxRaw := by decide
  have hr : Lz4.Packer.greedy.Rebuilds silentBlock.payload := by decide +kernel
  have hpacked : packed.packed = true := by decide +kernel
  have hother : packed.payload ≠ silentBlock.payload := by decide +kernel
  have hfails : (unpack.act .greedy garbledBlock).1 ≠ .ok () := by
    intro hok
    have hfault : faultOf (unpack.act .greedy garbledBlock).1 = some .compression := by
      decide +kernel
    rw [hok] at hfault
    cases hfault
  have hwanted : garbledBlock.packed = pack.wanted := rfl
  obtain ⟨-, -, -, -, hform, -, hback⟩ :=
    reversible_in_place .greedy silentBlock [pack, pack] unpack
  obtain ⟨hsaid, -, hsame⟩ := hback hraw hmax hr
  have hgarbled := (reversible_in_place .greedy garbledBlock [] unpack).2.2.2.2.2.1 hfails
  have hagain := (reversible_in_place .greedy garbledBlock [] pack).2.2.2.1 hwanted
  exact ⟨hraw, hmax, hr, hpacked, hother, Prod.ext hsaid (hsame (hform hsaid)), hfails,
    hgarbled.2, hwanted, Prod.ext hagain.1 hagain.2⟩

end Packing
end IqTape

import IqTape.Control.Line

/-!
# The lines of a connection

What comes in on a connection is cut at the line breaks.  The last piece is not finished, and the
others are lines once their carriage returns are left out; empty ones are skipped, and a piece
that is too long ends the connection, finished or not.  A cutter takes the bytes one by one.
What it keeps depends only on the bytes of the piece that it is in, so it does not matter in how
many parts the bytes come in.

## Main definitions

* `pieces` — what comes in, cut at the line breaks.
* `Bytes.withoutReturns`, `Bytes.fitsLine` — a piece as a line, and whether it is short enough.
* `requestLines` — the lines that are to be answered.
* `LineCutter.holding` — a cutter that is in some piece.

## Main results

* `LineCutter.feed_holding`, `LineCutter.feed_newline` — **one byte more**.
* `LineCutter.feedAll_append` — bytes that come in two parts.
* `linesOf_eq_requestLines`, `LineCutter.closed_iff` — **which lines come out, and when the
  connection ends**.
-/

namespace IqTape

/-! ### Pieces -/

/-- A piece of what comes in without its carriage returns. -/
def Bytes.withoutReturns (piece : Bytes) : Bytes := piece.filter (· ≠ 0x0D)

/-- Whether a piece is short enough for a line. -/
def Bytes.fitsLine (piece : Bytes) : Bool := decide (piece.withoutReturns.length ≤ 4096)

/-- What comes in, cut at the line breaks.  The last piece is not finished. -/
def pieces (bs : Bytes) : List Bytes := bs.splitOn 0x0A

/-- The lines that are to be answered: the finished pieces up to the first that is too long,
without their carriage returns and without empty ones. -/
def requestLines (bs : Bytes) : List Bytes :=
  (((pieces bs).dropLast.takeWhile Bytes.fitsLine).map Bytes.withoutReturns).filter
    fun line => !line.isEmpty

variable {b : UInt8} {p bs : Bytes}

namespace Bytes

theorem fitsLine_iff : p.fitsLine = true ↔ p.withoutReturns.length ≤ LineCutter.maxLength :=
  decide_eq_true_iff

theorem withoutReturns_append (p q : Bytes) :
    (p ++ q).withoutReturns = p.withoutReturns ++ q.withoutReturns := List.filter_append p q

/-- A piece that is too long does not get shorter. -/
theorem not_fitsLine_append (h : p.fitsLine = false) (q : Bytes) : (p ++ q).fitsLine = false := by
  rw [Bool.eq_false_iff, ne_eq, fitsLine_iff] at h ⊢
  rw [withoutReturns_append, List.length_append]
  omega

end Bytes

theorem pieces_of_unbroken (hp : (0x0A : UInt8) ∉ p) : pieces p = [p] :=
  List.splitOn_eq_singleton hp

theorem pieces_append (hp : (0x0A : UInt8) ∉ p) (bs : Bytes) :
    pieces (p ++ 0x0A :: bs) = p :: pieces bs :=
  List.splitOn_append_cons_self_of_not_mem hp bs

theorem pieces_ne_nil (bs : Bytes) : pieces bs ≠ [] := List.splitOn_ne_nil _ bs

/-- What is not finished is not answered. -/
theorem requestLines_of_unbroken (hp : (0x0A : UInt8) ∉ p) : requestLines p = [] := by
  rw [requestLines, pieces_of_unbroken hp]
  rfl

/-- The first piece is a line, or empty, or too long for anything to come behind it. -/
theorem requestLines_append (hp : (0x0A : UInt8) ∉ p) (bs : Bytes) :
    requestLines (p ++ 0x0A :: bs) =
      if p.fitsLine then
        (if p.withoutReturns.isEmpty then [] else [p.withoutReturns]) ++ requestLines bs
      else [] := by
  rw [requestLines, pieces_append hp, List.dropLast_cons_of_ne_nil (pieces_ne_nil bs),
    List.takeWhile_cons]
  split
  · rw [List.map_cons, List.filter_cons]
    cases p.withoutReturns.isEmpty <;> rfl
  · rfl

namespace LineCutter

/-! ### One byte more -/

/-- The cutter that has taken the bytes of a piece so far. -/
def holding (p : Bytes) : LineCutter :=
  if p.fitsLine then .open p.withoutReturns.reverse p.withoutReturns.length else .closed

theorem holding_nil : holding [] = fresh := rfl

theorem holding_eq_closed_iff : holding p = .closed ↔ p.fitsLine = false := by
  unfold holding
  cases p.fitsLine <;> simp

/-- **A byte within a piece** makes nothing come out. -/
theorem feed_holding (p : Bytes) (hb : b ≠ 0x0A) :
    (holding p).feed b = (holding (p ++ [b]), none) := by
  cases hfits : p.fitsLine with
  | false =>
    have hlater := Bytes.not_fitsLine_append hfits [b]
    rw [holding_eq_closed_iff.2 hfits, holding_eq_closed_iff.2 hlater]
    rfl
  | true =>
    have hlen := Bytes.fitsLine_iff.1 hfits
    rw [holding, hfits]
    simp only [if_true, feed, if_neg hb]
    split
    · next hreturn =>
      -- A carriage return is not there for the line.
      have hsame : (p ++ [b]).withoutReturns = p.withoutReturns := by
        rw [Bytes.withoutReturns_append, hreturn]
        exact List.append_nil _
      have hstill : (p ++ [b]).fitsLine = true := by
        rw [Bytes.fitsLine_iff, hsame]
        exact hlen
      rw [holding, if_pos hstill, hsame]
    · next hkept =>
      have hmore : (p ++ [b]).withoutReturns = p.withoutReturns ++ [b] := by
        have hlast : Bytes.withoutReturns [b] = [b] :=
          List.filter_cons_of_pos (decide_eq_true hkept)
        rw [Bytes.withoutReturns_append, hlast]
      have hlonger : (p ++ [b]).fitsLine = true ↔ p.withoutReturns.length < maxLength := by
        rw [Bytes.fitsLine_iff, hmore, List.length_append]
        exact Iff.rfl
      split
      · next hfull =>
        rw [holding, if_neg fun h => absurd (hlonger.1 h) (Nat.not_lt.2 hfull)]
      · next hroom =>
        rw [holding, if_pos (hlonger.2 (Nat.lt_of_not_le hroom)), hmore, List.reverse_append,
          List.length_append]
        rfl

/-- **A line break ends a piece.**  Behind one that is too long there is nothing more. -/
theorem feed_newline (p : Bytes) :
    (holding p).feed 0x0A =
      if p.fitsLine then
        (fresh, if p.withoutReturns.isEmpty then none else some p.withoutReturns)
      else (.closed, none) := by
  unfold holding
  cases p.fitsLine with
  | false => rfl
  | true =>
    simp only [if_true, feed, List.reverse_reverse]
    cases p.withoutReturns <;> rfl

/-! ### All bytes -/

theorem feedAll_closed (found : List Bytes) (bs : Bytes) :
    feedAll found bs .closed = (found.reverse, .closed) := by
  induction bs with
  | nil => rfl
  | cons b bs ih => exact ih

/-- What has been found stands in front of what comes out. -/
theorem feedAll_found (found : List Bytes) (bs : Bytes) (c : LineCutter) :
    feedAll found bs c = (found.reverse ++ (feedAll [] bs c).1, (feedAll [] bs c).2) := by
  induction bs generalizing found c with
  | nil => simp only [feedAll, List.reverse_nil, List.append_nil]
  | cons b bs ih =>
    rcases hfeed : c.feed b with ⟨c, _ | line⟩
    · simp only [feedAll, hfeed]
      exact ih found c
    · simp only [feedAll, hfeed]
      rw [ih (line :: found), ih [line], List.reverse_cons, List.append_assoc]
      rfl

/-- **It does not matter in how many parts bytes come in.** -/
theorem feedAll_append (as bs : Bytes) (c : LineCutter) :
    feedAll [] (as ++ bs) c =
      ((feedAll [] as c).1 ++ (feedAll [] bs (feedAll [] as c).2).1,
        (feedAll [] bs (feedAll [] as c).2).2) := by
  induction as generalizing c with
  | nil => rfl
  | cons a as ih =>
    rcases hfeed : c.feed a with ⟨c, _ | line⟩
    · simp only [List.cons_append, feedAll, hfeed]
      exact ih c
    · simp only [List.cons_append, feedAll, hfeed]
      rw [feedAll_found [line], feedAll_found [line] as, ih, List.append_assoc]

theorem feedAll_within (p bs : Bytes) (hb : b ≠ 0x0A) :
    feedAll [] (b :: bs) (holding p) = feedAll [] bs (holding (p ++ [b])) := by
  simp only [feedAll, feed_holding p hb]

theorem feedAll_newline (p bs : Bytes) :
    feedAll [] (0x0A :: bs) (holding p) =
      if p.fitsLine then
        ((if p.withoutReturns.isEmpty then [] else [p.withoutReturns]) ++ (feedAll [] bs fresh).1,
          (feedAll [] bs fresh).2)
      else ([], .closed) := by
  have hfeed := feed_newline p
  cases hfits : p.fitsLine with
  | false =>
    rw [hfits, if_neg Bool.false_ne_true] at hfeed
    simp only [feedAll, hfeed, feedAll_closed]
    rfl
  | true =>
    rw [hfits, if_pos rfl] at hfeed
    simp only [feedAll, hfeed, if_true]
    cases p.withoutReturns.isEmpty with
    | true => rfl
    | false => exact feedAll_found [p.withoutReturns] bs fresh

/-- What comes out of a cutter that is in some piece are the lines of that piece and what follows,
and it has nothing more to give once a piece was too long. -/
theorem feedAll_holding (hp : (0x0A : UInt8) ∉ p) (bs : Bytes) :
    (feedAll [] bs (holding p)).1 = requestLines (p ++ bs) ∧
      ((feedAll [] bs (holding p)).2 = .closed ↔
        ∃ piece ∈ pieces (p ++ bs), piece.fitsLine = false) := by
  -- The piece that the cutter is in grows with every byte that is no line break.
  induction bs generalizing p with
  | nil =>
    rw [List.append_nil, requestLines_of_unbroken hp, pieces_of_unbroken hp]
    refine ⟨rfl, ?_⟩
    simp only [feedAll, List.mem_singleton, exists_eq_left]
    exact holding_eq_closed_iff
  | cons b bs ih =>
    by_cases hb : b = 0x0A
    · subst hb
      obtain ⟨hlines, hclosed⟩ := ih (p := []) List.not_mem_nil
      rw [List.nil_append, holding_nil] at hlines hclosed
      rw [feedAll_newline, requestLines_append hp, pieces_append hp]
      simp only [List.mem_cons, exists_eq_or_imp]
      cases p.fitsLine with
      | false => exact ⟨rfl, iff_of_true rfl (.inl rfl)⟩
      | true =>
        rw [if_pos rfl, if_pos rfl, hlines]
        exact ⟨rfl, hclosed.trans (or_iff_right (by decide)).symm⟩
    · have hmore : (0x0A : UInt8) ∉ p ++ [b] := by
        rw [List.mem_append, List.mem_singleton]
        rintro (hin | hlast)
        · exact hp hin
        · exact hb hlast.symm
      rw [feedAll_within p bs hb, List.append_cons p b bs]
      exact ih hmore

/-- **When a connection ends**: at a piece that is too long, finished or not. -/
theorem closed_iff (bs : Bytes) :
    (feedAll [] bs fresh).2 = .closed ↔ ∃ piece ∈ pieces bs, piece.fitsLine = false :=
  (feedAll_holding List.not_mem_nil bs).2

end LineCutter

/-- **Which lines come out.** -/
theorem linesOf_eq_requestLines (bs : Bytes) : linesOf bs = requestLines bs :=
  (LineCutter.feedAll_holding List.not_mem_nil bs).1

/-- A line with a carriage return, one that is empty but for that, and an unfinished one. -/
example : requestLines [0x41, 0x0D, 0x0A, 0x0D, 0x0A, 0x42] = [[0x41]] := by decide

end IqTape

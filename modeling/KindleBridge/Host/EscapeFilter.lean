import Mathlib.Data.List.Basic

/-! # The escape byte of the host shell

What is typed goes through a filter on its way to the device. An escape byte at the start of
a line is held back until the next byte says whether it closes the shell. What the filter
should do depends on a byte and its two neighbours only, not on how the input is cut.
-/

namespace KindleBridge.Host

structure EscapeFilter where
  escape : Option UInt8
  atLineStart : Bool
  pending : Bool
  deriving DecidableEq

structure FilteredInput where
  data : List UInt8
  close : Bool
  deriving DecidableEq

def isLineEnd (byte : UInt8) : Bool := byte == 13 || byte == 10

namespace EscapeFilter

def new (escape : Option UInt8) : EscapeFilter := ⟨escape, true, false⟩

/-- One turn of the loop: what it adds to the data, and whether it leaves the loop. -/
def turn (f : EscapeFilter) (byte : UInt8) : FilteredInput × EscapeFilter :=
  match f.escape with
  | none => (⟨[byte], false⟩, { f with atLineStart := isLineEnd byte })
  | some escape =>
    if f.pending then
      if byte = 46 then (⟨[], true⟩, { f with pending := false })
      else if byte = escape then
        (⟨[escape], false⟩, { f with pending := false, atLineStart := false })
      else (⟨[escape, byte], false⟩, { f with pending := false, atLineStart := isLineEnd byte })
    else if f.atLineStart ∧ byte = escape then (⟨[], false⟩, { f with pending := true })
    else (⟨[byte], false⟩, { f with atLineStart := isLineEnd byte })

def push (f : EscapeFilter) : List UInt8 → FilteredInput × EscapeFilter
  | [] => (⟨[], false⟩, f)
  | byte :: input =>
    let now := f.turn byte
    let later := now.2.push input
    if now.1.close then now
    else (⟨now.1.data ++ later.1.data, later.1.close⟩, later.2)

end EscapeFilter

/-! ## What the filter should do -/

/-- An escape byte at the start of a line, given the byte in front of it. -/
def leads (escape previous : Option UInt8) (byte : UInt8) : Bool :=
  previous.all isLineEnd && some byte == escape

/-- An escape byte at the start of a line is followed by a dot. -/
def closes (escape : Option UInt8) (previous : Option UInt8) : List UInt8 → Bool
  | [] => false
  | byte :: rest =>
    leads escape previous byte && rest.head? == some 46 || closes escape (some byte) rest

/--
The bytes in front of a closing pair, without an escape byte at the start of a line that is
doubled or the last byte.
-/
def passed (escape : Option UInt8) (previous : Option UInt8) : List UInt8 → List UInt8
  | [] => []
  | byte :: rest =>
    if leads escape previous byte ∧ rest.head? = some 46 then []
    else if leads escape previous byte ∧ (rest = [] ∨ rest.head? = some byte) then
      passed escape (some byte) rest
    else byte :: passed escape (some byte) rest

namespace EscapeFilter

variable {escape previous : Option UInt8}

theorem push_append (f : EscapeFilter) (a b : List UInt8) (h : (f.push a).1.close = false) :
    f.push (a ++ b) = (⟨(f.push a).1.data ++ ((f.push a).2.push b).1.data,
      ((f.push a).2.push b).1.close⟩, ((f.push a).2.push b).2) := by
  induction a generalizing f with
  | nil => rfl
  | cons byte a ih =>
    simp only [List.cons_append, push] at h ⊢
    split_ifs at h ⊢ with hclose
    · simp [hclose] at h
    · rw [ih _ h, List.append_assoc]

theorem turn_of_not_leads {byte : UInt8} (h : leads escape previous byte = false) :
    turn ⟨escape, previous.all isLineEnd, false⟩ byte =
      (⟨[byte], false⟩, ⟨escape, isLineEnd byte, false⟩) := by
  cases escape with
  | none => rfl
  | some e => simp_all [turn, leads]

/-- A filter that holds nothing back knows of the input only whether a line has ended. -/
theorem push_eq (hescape : ∀ e ∈ escape, isLineEnd e = false) : ∀ (input : List UInt8) previous,
    (push ⟨escape, previous.all isLineEnd, false⟩ input).1 =
      ⟨passed escape previous input, closes escape previous input⟩
  | [], _ => rfl
  | byte :: input, previous => by
    cases hleads : leads escape previous byte with
    | false =>
      have ih := push_eq hescape input (some byte)
      simp_all [push, turn_of_not_leads, passed, closes]
    | true =>
      obtain ⟨hstart, hbyte⟩ : previous.all isLineEnd = true ∧ some byte = escape := by
        simpa [leads] using hleads
      have hline : isLineEnd byte = false := hescape byte hbyte.symm
      -- The byte is held back, and the next one decides.
      cases input with
      | nil =>
        subst hbyte
        simp [push, turn, passed, closes, hstart, hleads]
      | cons next input =>
        have ih := push_eq hescape input (some next)
        subst hbyte
        have hnext : leads (some byte) (some byte) next = false := by simp [leads, hline]
        by_cases hdot : next = 46
        · simp [push, turn, passed, closes, hstart, hleads, hdot]
        · by_cases hdouble : next = byte
          · simp_all [push, turn, passed, closes]
          · simp_all [push, turn, passed, closes]

end EscapeFilter

open EscapeFilter

/--
How the input is cut never matters. The filter does what it should unless the escape byte
ends a line itself: a doubled one then hides the start of the next line.
-/
theorem escape_filter_exact_iff (escape : Option UInt8) : (∀ (f : EscapeFilter) (a b : List UInt8),
      (f.push a).1.close = false → f.push (a ++ b) =
        (⟨(f.push a).1.data ++ ((f.push a).2.push b).1.data, ((f.push a).2.push b).1.close⟩,
          ((f.push a).2.push b).2)) ∧
    ((∀ input, ((new escape).push input).1 =
        ⟨passed escape none input, closes escape none input⟩) ↔
      escape ≠ some 13 ∧ escape ≠ some 10) := by
  refine ⟨push_append, fun h => ⟨?_, ?_⟩, fun h input => push_eq (fun e he => ?_) input none⟩
  · rintro rfl
    exact absurd (h [13, 13, 13, 46]) (by decide)
  · rintro rfl
    exact absurd (h [10, 10, 10, 46]) (by decide)
  · obtain rfl := he
    simp_all [isLineEnd]

theorem line_end_escape_stays_open :
    ((new (some 13)).push [13, 13, 13, 46]).1 = ⟨[13, 13, 46], false⟩ ∧
      closes (some 13) none [13, 13, 13, 46] := by
  decide

end KindleBridge.Host

import Mathlib.Data.List.TakeWhile

/-! # The command line of the server on Windows

The program and its arguments are joined to one text, which the server takes apart again by
the rules of `CommandLineToArgvW`. A string of the system is a list of units of UTF-16.
-/

namespace KindleBridge.Host

open List

def needsQuotes (argument : List UInt16) : Bool :=
  argument.isEmpty || argument.any fun unit => unit = 0x20 ∨ unit = 0x09 ∨ unit = 0x22

/-- What the loop over the units of an argument pushes, up to the closing quotation mark. -/
def quoted (backslashes : ℕ) : List UInt16 → List UInt16
  | [] => replicate (backslashes * 2) 0x5c ++ [0x22]
  | unit :: argument =>
    if unit = 0x5c then quoted (backslashes + 1) argument
    else if unit = 0x22 then
      replicate (backslashes * 2 + 1) 0x5c ++ unit :: quoted 0 argument
    else replicate backslashes 0x5c ++ unit :: quoted 0 argument

def written (argument : List UInt16) : List UInt16 :=
  if needsQuotes argument then 0x22 :: quoted 0 argument else argument

def appendWindowsArgument (encoded argument : List UInt16) : Except String (List UInt16) :=
  if 0 ∈ argument then .error "server command contains a NUL character"
  else .ok (encoded ++ written argument)

/-- `isUnicode` is the check of the standard library that surrogates come in pairs. -/
def windowsCommandLine (isUnicode : List UInt16 → Bool) (program : List UInt16)
    (args : List (List UInt16)) : Except String (List UInt16) := do
  let encoded ← args.foldlM (fun encoded => appendWindowsArgument (encoded ++ [0x20]))
    (← appendWindowsArgument [] program)
  if isUnicode encoded then return encoded
  else throw "server command is not valid Unicode"

/-! ## The rules of `CommandLineToArgvW` -/

def isBlank (unit : UInt16) : Bool := unit = 0x20 ∨ unit = 0x09

/--
The arguments behind the program. Backslashes are special in front of a quotation mark only:
an even number of them is halved, and the mark begins or ends a quoted part; of an odd number
the last one makes the mark a part of the argument.
-/
def arguments (inQuotes : Bool) (backslashes : ℕ) (current : Option (List UInt16)) :
    List UInt16 → List (List UInt16)
  | [] => (current.map (· ++ replicate backslashes 0x5c)).toList
  | unit :: line =>
    if unit = 0x5c then arguments inQuotes (backslashes + 1) (some (current.getD [])) line
    else if unit = 0x22 then
      let current := current.getD [] ++ replicate (backslashes / 2) 0x5c
      if backslashes % 2 = 1 then arguments inQuotes 0 (some (current ++ [0x22])) line
      else arguments (!inQuotes) 0 (some current) line
    else if isBlank unit ∧ !inQuotes then
      (current.map (· ++ replicate backslashes 0x5c)).toList ++ arguments false 0 none line
    else arguments inQuotes 0 (some (current.getD [] ++ replicate backslashes 0x5c ++ [unit])) line

/-- The program ends at the next quotation mark or the next blank, whatever is in front of it. -/
def commandLineToArgvW (line : List UInt16) : List (List UInt16) :=
  if line.head? = some 0x22 then
    line.tail.takeWhile (· ≠ 0x22) ::
      arguments false 0 none (line.tail.dropWhile (· ≠ 0x22)).tail
  else
    line.takeWhile (!isBlank ·) :: arguments false 0 none (line.dropWhile (!isBlank ·))

/-! ## Writing and parsing -/

variable {cur us rest : List UInt16} {c : Option (List UInt16)} {q : Bool} {b k : ℕ}

theorem arguments_backslashes (n : ℕ) : arguments q b (some cur) (replicate n 0x5c ++ rest) =
    arguments q (b + n) (some cur) rest := by
  induction n generalizing b with
  | zero => rfl
  | succ n ih =>
    rw [replicate_succ, cons_append, arguments, if_pos rfl, Option.getD_some, ih, Nat.add_assoc,
      Nat.add_comm 1]

/-- Behind the backslashes that are still to be written, a quoted argument is read as it is. -/
theorem arguments_quoted (us : List UInt16) : arguments true 0 (some cur) (quoted k us ++ rest) =
    arguments false 0 (some (cur ++ replicate k 0x5c ++ us)) rest := by
  induction us generalizing k cur with
  | nil =>
    rw [quoted, append_assoc, arguments_backslashes, singleton_append, arguments]
    simp
  | cons unit us ih =>
    rw [quoted]
    split_ifs with hb hq
    · simp [ih, hb, replicate_succ']
    · rw [append_assoc, arguments_backslashes, cons_append, arguments]
      simp [hq, ih, Nat.mul_add_div, Nat.mul_comm k]
    · rw [append_assoc, arguments_backslashes, cons_append, arguments]
      simp [hb, hq, ih]

/-- What stands behind an argument: nothing, or a space. -/
def Ends (rest : List UInt16) : Prop := ∀ unit ∈ rest.head?, unit = 0x20

def Plain (us : List UInt16) : Prop := ∀ unit ∈ us, isBlank unit = false ∧ unit ≠ 0x22

theorem arguments_plain (hrest : Ends rest) (hsome : us ≠ [] ∨ c.isSome) (hus : Plain us) :
    arguments false b c (us ++ rest) =
      (c.getD [] ++ replicate b 0x5c ++ us) :: arguments false 0 none rest := by
  induction us generalizing b c with
  | nil =>
    obtain ⟨cur, rfl⟩ := Option.isSome_iff_exists.mp (hsome.resolve_left (· rfl))
    cases rest with
    | nil => simp [arguments]
    | cons unit rest =>
      obtain rfl := hrest unit rfl
      simp [arguments, isBlank]
  | cons unit us ih =>
    obtain ⟨⟨hblank, hquote⟩, hus⟩ := forall_mem_cons.mp hus
    rw [cons_append, arguments]
    by_cases hb : unit = 0x5c
    · rw [if_pos hb, ih (.inr rfl) hus, hb, replicate_succ']
      simp
    · have hih (cur : List UInt16) := ih (b := 0) (c := some cur) (.inr rfl) hus
      simp [hb, hblank, hquote, hih]

theorem plain_of_not_needsQuotes (h : ¬ needsQuotes us) : us ≠ [] ∧ Plain us := by
  simp_all [needsQuotes, Plain, isBlank]

theorem arguments_written (argument : List UInt16) (hrest : Ends rest) :
    arguments false 0 none (written argument ++ rest) =
      argument :: arguments false 0 none rest := by
  unfold written
  split_ifs with hq
  · have hend : arguments false 0 (some argument) ([] ++ rest) = _ :=
      arguments_plain hrest (.inr rfl) (by simp [Plain])
    rw [cons_append, arguments]
    simpa [arguments_quoted] using hend
  · obtain ⟨hne, hplain⟩ := plain_of_not_needsQuotes hq
    simpa using arguments_plain (b := 0) (c := none) hrest (.inl hne) hplain

theorem ends_flatMap (args : List (List UInt16)) : Ends (args.flatMap (0x20 :: written ·)) := by
  cases args <;> simp [Ends]

theorem arguments_flatMap (args : List (List UInt16)) :
    arguments false 0 none (args.flatMap (0x20 :: written ·)) = args := by
  induction args with
  | nil => rfl
  | cons arg args ih =>
    rw [flatMap_cons, cons_append, arguments]
    simp [isBlank, arguments_written arg (ends_flatMap args), ih]

/-! ## The program -/

/-- Without a quotation mark, quoting only doubles the backslashes at the end. -/
theorem quoted_eq (h : 0x22 ∉ us) : ∃ n, quoted k us = replicate k 0x5c ++ us ++
    replicate n 0x5c ++ [0x22] ∧ (n = 0 ↔ (replicate k 0x5c ++ us).getLast? ≠ some 0x5c) := by
  induction us generalizing k with
  | nil =>
    refine ⟨k, ?_, ?_⟩
    · rw [quoted, Nat.mul_two, ← replicate_append_replicate, append_nil]
    · cases k <;> simp [getLast?_replicate]
  | cons unit us ih =>
    obtain ⟨hquote, hus⟩ := not_or.mp (mem_cons.not.mp h)
    rw [quoted]
    split_ifs with hb
    · obtain ⟨n, hn, hlast⟩ := ih (k := k + 1) hus
      refine ⟨n, ?_, ?_⟩
      · simp [hn, hb, replicate_succ']
      · simpa [hb, replicate_succ'] using hlast
    · exact absurd (by assumption) (Ne.symm hquote)
    · obtain ⟨n, hn, hlast⟩ := ih (k := 0) hus
      refine ⟨n, by simp [hn], ?_⟩
      rw [hlast]
      cases us <;> simp [hb, getLast?_cons]

theorem argvW_written (program : List UInt16) (hrest : Ends rest) :
    commandLineToArgvW (written program ++ rest) = program :: arguments false 0 none rest ↔
      0x22 ∉ program ∧ (needsQuotes program → program.getLast? ≠ some 0x5c) := by
  unfold commandLineToArgvW written
  by_cases hq : needsQuotes program
  · simp only [if_pos hq, cons_append, head?_cons, if_true, tail_cons, cons.injEq]
    by_cases hquote : 0x22 ∈ program
    · refine iff_of_false (fun h => ?_) (by simp [hquote])
      exact absurd (mem_takeWhile_imp (h.1 ▸ hquote)) (by decide)
    · obtain ⟨n, hn, hlast⟩ := quoted_eq (k := 0) hquote
      have hmark : ∀ unit ∈ program ++ replicate n 0x5c, decide (unit ≠ 0x22) = true :=
        forall_mem_append.mpr ⟨fun _ h => decide_eq_true (ne_of_mem_of_not_mem h hquote), by simp⟩
      rw [hn, replicate_zero, nil_append, append_assoc (program ++ _),
        takeWhile_append_of_pos hmark, dropWhile_append_of_pos hmark]
      simpa [hq, hquote] using hlast
  · obtain ⟨hne, hplain⟩ := plain_of_not_needsQuotes hq
    have hquote : 0x22 ∉ program := fun h => (hplain _ h).2 rfl
    have hblank : ∀ unit ∈ program, (!isBlank unit) = true := by
      simpa using fun unit h => (hplain unit h).1
    have hhead : (program ++ rest).head? ≠ some 0x22 := by
      obtain ⟨unit, us, rfl⟩ := exists_cons_of_ne_nil hne
      simpa using (hplain unit (by simp)).2
    rw [if_neg hq, if_neg hhead, takeWhile_append_of_pos hblank, dropWhile_append_of_pos hblank]
    cases rest with
    | nil => simp [hq, hquote]
    | cons unit rest =>
      obtain rfl := hrest unit rfl
      simp [hq, hquote, isBlank]

theorem foldlM_append (args : List (List UInt16)) (encoded : List UInt16) :
    args.foldlM (fun encoded => appendWindowsArgument (encoded ++ [0x20])) encoded =
      if ∃ arg ∈ args, 0 ∈ arg then .error "server command contains a NUL character"
      else .ok (encoded ++ args.flatMap (0x20 :: written ·)) := by
  induction args generalizing encoded with
  | nil => simp [pure, Except.pure]
  | cons arg args ih =>
    rw [foldlM_cons, appendWindowsArgument]
    by_cases h : 0 ∈ arg <;> simp [h, bind, Except.bind, ih]

/--
The arguments always come back. The program comes back unless it has a quotation mark, or is
quoted and ends in a backslash: what is in front of the mark that ends it is not special.
-/
theorem command_line_parsed_iff (isUnicode : List UInt16 → Bool) (program : List UInt16)
    (args : List (List UInt16)) : match windowsCommandLine isUnicode program args with
    | .ok line => commandLineToArgvW line = program :: args ↔
        0x22 ∉ program ∧ (needsQuotes program → program.getLast? ≠ some 0x5c)
    | .error _ => (∃ arg ∈ program :: args, 0 ∈ arg) ∨
        isUnicode (written program ++ args.flatMap (0x20 :: written ·)) = false := by
  unfold windowsCommandLine
  rw [appendWindowsArgument]
  split_ifs with hnul
  · exact .inl ⟨program, by simp, hnul⟩
  · simp only [nil_append, bind, Except.bind, foldlM_append]
    split_ifs with hargs
    · exact .inl (hargs.imp fun arg h => ⟨mem_cons_of_mem _ h.1, h.2⟩)
    · have hparsed := argvW_written program (ends_flatMap args)
      rw [arguments_flatMap] at hparsed
      dsimp only
      split_ifs with hunicode
      · exact hparsed
      · exact .inr (by simpa using hunicode)

/-- The program `a b\` comes back with two backslashes. -/
theorem backslash_of_program_doubled :
    windowsCommandLine (fun _ => true) [0x61, 0x20, 0x62, 0x5c] [] =
      .ok [0x22, 0x61, 0x20, 0x62, 0x5c, 0x5c, 0x22] ∧
    commandLineToArgvW [0x22, 0x61, 0x20, 0x62, 0x5c, 0x5c, 0x22] =
      [[0x61, 0x20, 0x62, 0x5c, 0x5c]] := by
  decide

end KindleBridge.Host

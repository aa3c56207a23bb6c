import KindleBridge.Bundle.Grammar

/-! # Canonical CBOR is a canonical form

Two values are the same if they differ in the order of the entries of maps only. The values
that bundle metadata may hold are encoded as items of the grammar, two of them alike exactly
if they are the same.
-/

namespace KindleBridge.Bundle.Cbor

open List

/-- Equality of values, whatever the order of the entries of maps. -/
inductive Same : Value → Value → Prop
  | null : Same .null .null
  | bool {b : Bool} : Same (.bool b) (.bool b)
  | integer {i : ℤ} : Same (.integer i) (.integer i)
  | bytes {bytes : List UInt8} : Same (.bytes bytes) (.bytes bytes)
  | text {text : String} : Same (.text text) (.text text)
  | array {items items' : List Value} (lengths : items.length = items'.length)
      (each : ∀ p ∈ items.zip items', Same p.1 p.2) : Same (.array items) (.array items')
  | map {entries entries' ordered ordered' : List (Value × Value)}
      (perm : entries.Perm ordered) (perm' : entries'.Perm ordered')
      (lengths : ordered.length = ordered'.length)
      (keys : ∀ p ∈ ordered.zip ordered', Same p.1.1 p.2.1)
      (values : ∀ p ∈ ordered.zip ordered', Same p.1.2 p.2.2) :
      Same (.map entries) (.map entries')

/--
A value without tags and floating point numbers, of at most so many levels of nesting. The
lengths are those of slices, and a map has each key once.
-/
inductive Valid : ℕ → Value → Prop
  | null {levels : ℕ} : Valid (levels + 1) .null
  | bool {levels : ℕ} {b : Bool} : Valid (levels + 1) (.bool b)
  | integer {levels : ℕ} {i : ℤ} (low : -2 ^ 64 ≤ i) (high : i < 2 ^ 64) :
      Valid (levels + 1) (.integer i)
  | bytes {levels : ℕ} {bytes : List UInt8} (fits : bytes.length < 2 ^ 64) :
      Valid (levels + 1) (.bytes bytes)
  | text {levels : ℕ} {text : String} (fits : (textBytes text).length < 2 ^ 64) :
      Valid (levels + 1) (.text text)
  | array {levels : ℕ} {items : List Value} (fits : items.length < 2 ^ 64)
      (each : ∀ item ∈ items, Valid levels item) : Valid (levels + 1) (.array items)
  | map {levels : ℕ} {entries : List (Value × Value)} (fits : entries.length < 2 ^ 64)
      (keys : ∀ e ∈ entries, Valid levels e.1) (values : ∀ e ∈ entries, Valid levels e.2)
      (distinct : entries.Pairwise fun e f => ¬ Same e.1 f.1) :
      Valid (levels + 1) (.map entries)

/-! ## The encoding of a value -/

/-- What a value is encoded as. -/
def code (value : Value) : List UInt8 := (encodeValue value).toOption.getD []

def sortEntries (entries : List (Value × Value)) : List (Value × Value) :=
  entries.insertionSort fun left right => keyRank (code left.1) ≤ keyRank (code right.1)

def Value.major : Value → UInt8
  | .null | .bool _ | .float _ => 7
  | .integer i => if 0 ≤ i then 0 else 1
  | .bytes _ => 2
  | .text _ => 3
  | .array _ => 4
  | .map _ => 5
  | .tag _ _ => 6

def Value.argument : Value → ℕ
  | .null => 22
  | .bool b => if b then 21 else 20
  | .integer i => if 0 ≤ i then i.toNat else (-1 - i).toNat
  | .bytes content => content.length
  | .text content => (textBytes content).length
  | .array items => items.length
  | .map entries => entries.length
  | .tag number _ => number
  | .float bits => bits.toNat

/-- What follows the head of a value. -/
def Value.body : Value → List UInt8
  | .bytes content => content
  | .text content => textBytes content
  | .array items => (items.map code).flatten
  | .map entries => ((sortEntries entries).map fun e => code e.1 ++ code e.2).flatten
  | .null | .bool _ | .integer _ | .tag _ _ | .float _ => []

theorem code_of_ok {value : Value} {bytes : List UInt8} (h : encodeValue value = .ok bytes) :
    code value = bytes := by
  rw [code, h]
  rfl

theorem encodeItems_eq {items : List Value}
    (h : ∀ item ∈ items, encodeValue item = .ok (code item)) :
    encodeItems items = .ok (items.map code).flatten := by
  induction items with
  | nil => simp [encodeItems]
  | cons item items ih =>
    obtain ⟨hitem, hitems⟩ := forall_mem_cons.mp h
    rw [encodeItems, hitem, ih hitems]
    rfl

variable {entries : List (Value × Value)}

theorem encodeKeys_eq (h : ∀ e ∈ entries, encodeValue e.1 = .ok (code e.1)) :
    encodeKeys entries = .ok (entries.map fun e => (code e.1, encodeValue e.2)) := by
  induction entries with
  | nil => simp [encodeKeys]
  | cons e entries ih =>
    obtain ⟨he, hentries⟩ := forall_mem_cons.mp h
    rw [encodeKeys, he, ih hentries]
    rfl

theorem writeEntries_eq (h : ∀ e ∈ entries, encodeValue e.2 = .ok (code e.2)) :
    writeEntries (entries.map fun e => (code e.1, encodeValue e.2)) =
      .ok (entries.map fun e => code e.1 ++ code e.2).flatten := by
  induction entries with
  | nil => rfl
  | cons e entries ih =>
    obtain ⟨he, hentries⟩ := forall_mem_cons.mp h
    rw [map_cons, writeEntries, he, ih hentries]
    rfl

theorem toU64_eq {error : Error} {n : ℕ} (h : n < 2 ^ 64) : toU64 error n = .ok n := if_pos h

theorem mem_sortEntries {e : Value × Value} :
    e ∈ sortEntries entries ↔ e ∈ entries := (perm_insertionSort _ _).mem_iff

theorem length_sortEntries (entries : List (Value × Value)) :
    (sortEntries entries).length = entries.length := (perm_insertionSort _ _).length_eq

theorem encodeValue_map (hfit : entries.length < 2 ^ 64)
    (hkeys : ∀ e ∈ entries, encodeValue e.1 = .ok (code e.1))
    (hvalues : ∀ e ∈ entries, encodeValue e.2 = .ok (code e.2)) : encodeValue (.map entries) =
      .ok (encodeArgument 5 entries.length ++ (Value.map entries).body) := by
  have hsort : (entries.map fun e => (code e.1, encodeValue e.2)).insertionSort
      (fun left right => keyRank left.1 ≤ keyRank right.1) =
      (sortEntries entries).map fun e => (code e.1, encodeValue e.2) :=
    (map_insertionSort _ _ (fun e : Value × Value => (code e.1, encodeValue e.2)) _
      fun _ _ _ _ => Iff.rfl).symm
  have hwrite := writeEntries_eq fun e he => hvalues e (mem_sortEntries.mp he)
  rw [encodeValue, encodeKeys_eq hkeys]
  simp only [bind, Except.bind, hsort, length_map, length_sortEntries, usizeU64,
    toU64_eq hfit, hwrite]
  rfl

theorem Valid.encodes {levels : ℕ} {value : Value} (h : Valid levels value) :
    encodeValue value = .ok (encodeArgument value.major value.argument ++ value.body) ∧
      Item levels (encodeArgument value.major value.argument ++ value.body) := by
  induction h with
  | null =>
    refine ⟨by rw [encodeValue]; rfl, ?_⟩
    rw [Value.body, append_nil]
    exact .simple (.inr (.inr rfl))
  | @bool levels b =>
    rw [Value.body, append_nil]
    cases b with
    | false => exact ⟨by rw [encodeValue]; rfl, .simple (.inl rfl)⟩
    | true => exact ⟨by rw [encodeValue]; rfl, .simple (.inr (.inl rfl))⟩
  | @integer levels i low high =>
    rw [Value.body, append_nil, encodeValue, Value.major, Value.argument]
    split_ifs with hsign
    · have hfit : i.toNat < 2 ^ 64 := by omega
      exact ⟨by rw [toU64_eq hfit]; rfl, .integer (.inl rfl) hfit⟩
    · have hfit : (-1 - i).toNat < 2 ^ 64 := by omega
      exact ⟨by rw [toU64_eq hfit]; rfl, .integer (.inr rfl) hfit⟩
  | bytes fits => exact ⟨by rw [encodeValue, usizeU64, toU64_eq fits]; rfl, .bytes fits⟩
  | @text levels text fits =>
    refine ⟨by rw [encodeValue, usizeU64, toU64_eq fits]; rfl, .text fits ?_⟩
    rw [validUtf8, textBytes, Array.toArray_toList]
    exact ByteArray.validateUTF8_eq_true_iff.mpr text.isValidUTF8
  | @array levels items fits each ih =>
    have hcode : ∀ item ∈ items, encodeValue item = .ok (code item) := fun item hitem => by
      rw [code_of_ok (ih item hitem).1]
      exact (ih item hitem).1
    refine ⟨by rw [encodeValue, usizeU64, toU64_eq fits, encodeItems_eq hcode]; rfl, ?_⟩
    have hitems : ∀ word ∈ items.map code, Item levels word := by
      intro word hword
      obtain ⟨item, hitem, rfl⟩ := mem_map.mp hword
      rw [code_of_ok (ih item hitem).1]
      exact (ih item hitem).2
    have harray := Item.array (by simpa using fits) hitems
    rwa [length_map] at harray
  | @map levels entries fits keys values distinct ihk ihv =>
    have hkeys : ∀ e ∈ entries, encodeValue e.1 = .ok (code e.1) := fun e he => by
      rw [code_of_ok (ihk e he).1]
      exact (ihk e he).1
    have hvalues : ∀ e ∈ entries, encodeValue e.2 = .ok (code e.2) := fun e he => by
      rw [code_of_ok (ihv e he).1]
      exact (ihv e he).1
    refine ⟨encodeValue_map fits hkeys hvalues, ?_⟩
    have hwords : ∀ word ∈ (sortEntries entries).map fun e => (code e.1, code e.2),
        Item levels word.1 ∧ Item levels word.2 := by
      intro word hword
      obtain ⟨e, he, rfl⟩ := mem_map.mp hword
      have hkey := ihk e (mem_sortEntries.mp he)
      have hvalue := ihv e (mem_sortEntries.mp he)
      rw [code_of_ok hkey.1, code_of_ok hvalue.1]
      exact ⟨hkey.2, hvalue.2⟩
    have hmap := Item.map (by simpa [length_sortEntries] using fits)
      (fun word hword => (hwords word hword).1) fun word hword => (hwords word hword).2
    rw [length_map, length_sortEntries, map_map] at hmap
    exact hmap

section
variable {m n : ℕ} {v w : Value} {entries' : List (Value × Value)}

theorem Valid.code_eq (h : Valid m v) : code v = encodeArgument v.major v.argument ++ v.body :=
  code_of_ok h.encodes.1

theorem Valid.item (h : Valid m v) : ∃ levels, Item levels (code v) :=
  ⟨m, h.code_eq ▸ h.encodes.2⟩

theorem Value.major_lt (v : Value) : v.major.toNat < 8 := by
  cases v with
  | integer i =>
    rw [Value.major]
    split_ifs <;> decide
  | _ => exact Nat.lt_of_sub_eq_succ rfl

theorem Valid.argument_lt (h : Valid m v) : v.argument < 2 ^ 64 := by
  cases h with
  | null => decide
  | @bool _ b => cases b <;> decide
  | integer low high =>
    rw [Value.argument]
    split_ifs <;> omega
  | bytes fits | text fits | array fits | map fits => exact fits

/-! ## Equal encodings -/

theorem forall_zip_of_map_eq {α β : Type*} {f : α → β} :
    ∀ {xs ys : List α}, xs.map f = ys.map f → ∀ p ∈ xs.zip ys, f p.1 = f p.2
  | [], _, _, p, hp => by simp at hp
  | _ :: _, [], _, p, hp => by simp at hp
  | x :: xs, y :: ys, h, p, hp => by
    obtain ⟨hhead, htail⟩ := List.cons.inj h
    rcases mem_cons.mp hp with rfl | hp
    · exact hhead
    · exact forall_zip_of_map_eq htail p hp

theorem map_eq_of_forall_zip {α β : Type*} {f : α → β} :
    ∀ {xs ys : List α}, xs.length = ys.length → (∀ p ∈ xs.zip ys, f p.1 = f p.2) →
      xs.map f = ys.map f
  | [], [], _, _ => rfl
  | x :: xs, y :: ys, hlength, h => by
    have hhead : f x = f y := h (x, y) (by simp)
    have htail := map_eq_of_forall_zip (by simpa using hlength) fun p hp =>
      h p (mem_cons_of_mem _ hp)
    rw [map_cons, map_cons, hhead, htail]

theorem codes_of_flatten {items items' : List Value} (hlength : items.length = items'.length)
    (hv : ∀ item ∈ items, Valid m item) (hw : ∀ item ∈ items', Valid n item)
    (h : (items.map code).flatten = (items'.map code).flatten) :
    items.map code = items'.map code := by
  have hwords : ∀ {k : ℕ} {items : List Value}, (∀ item ∈ items, Valid k item) →
      ∀ word ∈ items.map code, ∃ levels, Item levels word := by
    intro k items hitems word hword
    obtain ⟨item, hitem, rfl⟩ := mem_map.mp hword
    exact (hitems item hitem).item
  exact item_prefixFree.flatten_inj (s := []) (t := []) (hwords hv) (hwords hw)
    (by simpa using hlength) (by simpa using h)

theorem codes_of_entries
    (hlength : entries.length = entries'.length) (hv : ∀ e ∈ entries, Valid m e.1 ∧ Valid m e.2)
    (hw : ∀ e ∈ entries', Valid n e.1 ∧ Valid n e.2)
    (h : (entries.map fun e => code e.1 ++ code e.2).flatten =
      (entries'.map fun e => code e.1 ++ code e.2).flatten) :
    ∀ p ∈ entries.zip entries', code p.1.1 = code p.2.1 ∧ code p.1.2 = code p.2.2 := by
  have hwords : ∀ {k : ℕ} {entries : List (Value × Value)},
      (∀ e ∈ entries, Valid k e.1 ∧ Valid k e.2) →
      ∀ word ∈ entries.map fun e => code e.1 ++ code e.2,
        ∃ x y, (∃ levels, Item levels x) ∧ (∃ levels, Item levels y) ∧ word = x ++ y := by
    intro k entries hentries word hword
    obtain ⟨e, he, rfl⟩ := mem_map.mp hword
    exact ⟨_, _, (hentries e he).1.item, (hentries e he).2.item, rfl⟩
  have hmap := item_prefixFree.pairs.flatten_inj (s := []) (t := []) (hwords hv) (hwords hw)
    (by simpa using hlength) (by simpa using h)
  intro p hp
  have hword := forall_zip_of_map_eq hmap p hp
  obtain ⟨hleft, hright⟩ := of_mem_zip hp
  exact item_prefixFree.pair (s := []) (t := []) (hv _ hleft).1.item (hw _ hright).1.item
    (hv _ hleft).2.item (hw _ hright).2.item (by simpa using hword)

theorem Valid.heads (hv : Valid m v) (hw : Valid n w) (h : code v = code w) :
    v.major = w.major ∧ v.argument = w.argument ∧ v.body = w.body := by
  rw [hv.code_eq, hw.code_eq] at h
  exact encodeArgument_inj v.major_lt w.major_lt hv.argument_lt hw.argument_lt h

theorem Same.of_sorted (hlength : entries.length = entries'.length)
    (hkeys : ∀ p ∈ (sortEntries entries).zip (sortEntries entries'), Same p.1.1 p.2.1)
    (hvalues : ∀ p ∈ (sortEntries entries).zip (sortEntries entries'), Same p.1.2 p.2.2) :
    Same (.map entries) (.map entries') :=
  .map (perm_insertionSort _ _).symm (perm_insertionSort _ _).symm
    (by rw [← sortEntries, ← sortEntries, length_sortEntries, length_sortEntries, hlength])
    hkeys hvalues

theorem Valid.same_of_code (hv : Valid m v) (hw : Valid n w) (h : code v = code w) : Same v w := by
  induction hv generalizing w n with
  | @null k =>
    obtain ⟨hmajor, hargument, -⟩ := (show Valid (k + 1) .null from .null).heads hw h
    cases hw with
    | null => exact .null
    | @bool _ b => cases b <;> simp [Value.argument] at hargument
    | _ => grind [Value.major]
  | @bool k b =>
    obtain ⟨hmajor, hargument, -⟩ := (show Valid (k + 1) (.bool b) from .bool).heads hw h
    cases hw with
    | null => cases b <;> simp [Value.argument] at hargument
    | @bool _ b' =>
      cases b <;> cases b' <;> first | exact .bool | simp [Value.argument] at hargument
    | _ => grind [Value.major]
  | @integer k i low high =>
    have hv : Valid (k + 1) (.integer i) := .integer low high
    obtain ⟨hmajor, hargument, -⟩ := hv.heads hw h
    cases hw with
    | @integer _ j low' high' =>
      have hij : i = j := by grind [Value.major, Value.argument]
      exact hij ▸ .integer
    | _ => grind [Value.major]
  | @bytes k content fits =>
    obtain ⟨hmajor, -, hbody⟩ := (show Valid (k + 1) _ from .bytes fits).heads hw h
    cases hw with
    | bytes fits' =>
      obtain rfl := hbody
      exact .bytes
    | _ => grind [Value.major]
  | @text k content fits =>
    obtain ⟨hmajor, -, hbody⟩ := (show Valid (k + 1) _ from .text fits).heads hw h
    cases hw with
    | @text _ content' fits' =>
      have hdata : content.toByteArray = content'.toByteArray :=
        ByteArray.ext (Array.toList_inj.mp hbody)
      obtain rfl := String.toByteArray_inj.mp hdata
      exact .text
    | _ => grind [Value.major]
  | @array k items fits each ih =>
    obtain ⟨hmajor, hargument, hbody⟩ := (Valid.array fits each).heads hw h
    cases hw with
    | @array k' items' fits' each' =>
      have hcodes := codes_of_flatten hargument each each' hbody
      refine .array hargument fun p hp => ?_
      obtain ⟨hleft, hright⟩ := of_mem_zip hp
      exact ih _ hleft (each' _ hright) (forall_zip_of_map_eq hcodes p hp)
    | _ => grind [Value.major]
  | @map k entries fits keys values distinct ihk ihv =>
    obtain ⟨hmajor, hargument, hbody⟩ := (Valid.map fits keys values distinct).heads hw h
    cases hw with
    | @map k' entries' fits' keys' values' distinct' =>
      have hmem : ∀ {e}, e ∈ sortEntries entries → Valid k e.1 ∧ Valid k e.2 := fun he =>
        ⟨keys _ (mem_sortEntries.mp he), values _ (mem_sortEntries.mp he)⟩
      have hmem' : ∀ {e}, e ∈ sortEntries entries' → Valid k' e.1 ∧ Valid k' e.2 := fun he =>
        ⟨keys' _ (mem_sortEntries.mp he), values' _ (mem_sortEntries.mp he)⟩
      have hcodes := codes_of_entries
        (by rw [length_sortEntries, length_sortEntries]; exact hargument)
        (fun _ => hmem) (fun _ => hmem') hbody
      apply Same.of_sorted hargument
      · intro p hp
        obtain ⟨hleft, hright⟩ := of_mem_zip hp
        exact ihk _ (mem_sortEntries.mp hleft) (hmem' hright).1 (hcodes p hp).1
      · intro p hp
        obtain ⟨hleft, hright⟩ := of_mem_zip hp
        exact ihv _ (mem_sortEntries.mp hleft) (hmem' hright).2 (hcodes p hp).2
    | _ => grind [Value.major]

/-! ## The same values -/

theorem keyRank_injective : Function.Injective keyRank := by
  intro x y h
  have hmap : x.map UInt8.toNat = y.map UInt8.toNat := (Prod.mk.inj (toLex_inj.mp h)).2
  exact map_injective_iff.mpr (fun _ _ => UInt8.toNat_inj.mp) hmap

def entryCode (e : Value × Value) : List UInt8 × List UInt8 := (code e.1, code e.2)

/-- The order in which the encoded entries of a map are written. -/
def EntryLe (x y : List UInt8 × List UInt8) : Prop := keyRank x.1 ≤ keyRank y.1

instance : DecidableRel EntryLe := fun x y =>
  inferInstanceAs (Decidable (keyRank x.1 ≤ keyRank y.1))
instance : Std.Total EntryLe := ⟨fun x y => le_total (keyRank x.1) (keyRank y.1)⟩
instance : IsTrans _ EntryLe := ⟨fun _ _ _ => le_trans⟩

theorem map_sortEntries (entries : List (Value × Value)) :
    (sortEntries entries).map entryCode = (entries.map entryCode).insertionSort EntryLe :=
  map_insertionSort _ _ entryCode _ fun _ _ _ _ => Iff.rfl

theorem insertionSort_eq_of_perm {xs ys : List (List UInt8 × List UInt8)} (h : xs.Perm ys)
    (hdistinct : (xs.map Prod.fst).Nodup) :
    xs.insertionSort EntryLe = ys.insertionSort EntryLe := by
  have hx := perm_insertionSort EntryLe xs
  have hy := perm_insertionSort EntryLe ys
  refine List.Perm.eq_of_pairwise ?_ (pairwise_insertionSort _ _)
    (pairwise_insertionSort _ _) (hx.trans (h.trans hy.symm))
  intro a b ha hb hab hba
  have hkey : a.1 = b.1 := keyRank_injective (le_antisymm hab hba)
  exact inj_on_of_nodup_map hdistinct (hx.mem_iff.mp ha) (h.mem_iff.mpr (hy.mem_iff.mp hb)) hkey

theorem nodup_keys (hkeys : ∀ e ∈ entries, Valid m e.1)
    (hdistinct : entries.Pairwise fun e f => ¬ Same e.1 f.1) :
    ((entries.map entryCode).map Prod.fst).Nodup := by
  rw [map_map, nodup_iff_pairwise_ne, pairwise_map]
  refine hdistinct.imp_of_mem fun {e f} he hf hsame heq => hsame ?_
  exact (hkeys e he).same_of_code (hkeys f hf) heq

theorem Same.code_eq (h : Same v w) (hv : Valid m v) (hw : Valid n w) : code v = code w := by
  rw [hv.code_eq, hw.code_eq]
  induction h generalizing m n with
  | null | bool | integer | bytes | text => rfl
  | @array items items' lengths each ih =>
    cases hv with
    | array fits hitems =>
      cases hw with
      | array fits' hitems' =>
        have hcodes : items.map code = items'.map code := by
          apply map_eq_of_forall_zip lengths
          intro p hp
          obtain ⟨hleft, hright⟩ := of_mem_zip hp
          rw [(hitems _ hleft).code_eq, (hitems' _ hright).code_eq]
          exact ih p hp (hitems _ hleft) (hitems' _ hright)
        simp only [Value.major, Value.argument, Value.body, lengths, hcodes]
  | @map entries entries' ordered ordered' perm perm' lengths _ _ ihk ihv =>
    cases hv with
    | map fits keys values distinct =>
      cases hw with
      | map fits' keys' values' distinct' =>
        have hcodes : ordered.map entryCode = ordered'.map entryCode := by
          apply map_eq_of_forall_zip lengths
          intro p hp
          obtain ⟨hleft, hright⟩ := of_mem_zip hp
          have hl := perm.mem_iff.mpr hleft
          have hr := perm'.mem_iff.mpr hright
          have hkey := ihk p hp (keys _ hl) (keys' _ hr)
          have hvalue := ihv p hp (values _ hl) (values' _ hr)
          rw [← (keys _ hl).code_eq, ← (keys' _ hr).code_eq] at hkey
          rw [← (values _ hl).code_eq, ← (values' _ hr).code_eq] at hvalue
          exact Prod.ext hkey hvalue
        have hperm : (entries.map entryCode).Perm (entries'.map entryCode) :=
          (perm.map _).trans (hcodes ▸ (perm'.map _).symm)
        have hsorted :
            (sortEntries entries).map entryCode = (sortEntries entries').map entryCode := by
          rw [map_sortEntries, map_sortEntries]
          exact insertionSort_eq_of_perm hperm (nodup_keys keys distinct)
        have hbody : ∀ entries, (Value.map entries).body =
            (((sortEntries entries).map entryCode).map fun x => x.1 ++ x.2).flatten := by
          intro entries
          rw [map_map]
          rfl
        rw [hbody, hbody, hsorted]
        simp only [Value.major, Value.argument, perm.length_eq, perm'.length_eq, lengths]

end

/-! ## The canonical form -/

/-- A value that a document may hold at its top: it is nested below the limit. -/
def Encodable (value : Value) : Prop := Valid maxDepth value

theorem scanItem_reads {usizeMax : ℕ} {input : List UInt8} (hfit : input.length ≤ usizeMax)
    (depth : ℕ) : Reads input id (Item (maxDepth - depth))
      fun offset => scanItem usizeMax input offset depth :=
  scanLevels_reads hfit _

/--
Every value without tags and floats, of integers of 64 bits and a nesting below the limit is
encoded, and the scanner moves over its encoding and no further, whatever follows. Two such
values of which one's encoding begins the other's are the same, and the same values have one
encoding. The scanner returns on every input; what it accepts is an item of the grammar, of
definite lengths, shortest arguments and valid UTF-8, and an item nested more deeply than the
limit is refused at the top, like any item at the limit.
-/
theorem encoding_is_canonical (usizeMax : ℕ) :
    (∀ value, Encodable value → ∃ bytes, encodeValue value = .ok bytes ∧
      ∀ suffix, (bytes ++ suffix).length ≤ usizeMax →
        scanItem usizeMax (bytes ++ suffix) 0 0 = .ok bytes.length) ∧
    (∀ v w, Encodable v → Encodable w → ∀ x y, encodeValue v = .ok x → encodeValue w = .ok y →
      x <+: y → x = y ∧ Same v w) ∧
    (∀ v w, Encodable v → Encodable w → Same v w → encodeValue v = encodeValue w) ∧
    (∀ input : List UInt8, input.length ≤ usizeMax → ∀ offset depth,
      (∃ error, scanItem usizeMax input offset depth = .error error) ∨
      ∃ stop item, scanItem usizeMax input offset depth = .ok stop ∧
        Item (maxDepth - depth) item ∧ input.drop offset = item ++ input.drop stop) ∧
    (∀ levels item suffix, (item ++ suffix).length ≤ usizeMax → Item levels item →
      ¬ Item maxDepth item → ∃ error, scanItem usizeMax (item ++ suffix) 0 0 = .error error) ∧
    (∀ input offset depth, maxDepth ≤ depth →
      scanItem usizeMax input offset depth =
        .error ⟨.canonicalCbor, "CBOR nesting exceeds 32 levels"⟩) := by
  refine ⟨?_, ?_, ?_, ?_, ?_, ?_⟩
  · intro value h
    refine ⟨_, h.encodes.1, fun suffix hfit => ?_⟩
    refine (scanItem_reads hfit 0 0 _).mpr ⟨_, suffix, h.encodes.2, rfl, ?_⟩
    rw [Nat.zero_add, id]
  · rintro v w hv hw x y hx hy ⟨t, ht⟩
    have hcodes := code_of_ok hx
    have hcodes' := code_of_ok hy
    subst hcodes hcodes'
    have heq : code v = code w :=
      item_prefixFree hv.item hw.item (t := []) (by rw [ht, append_nil])
    exact ⟨heq, hv.same_of_code hw heq⟩
  · intro v w hv hw h
    have heq := h.code_eq hv hw
    rw [hv.code_eq, hw.code_eq] at heq
    rw [hv.encodes.1, hw.encodes.1, heq]
  · intro input hfit offset depth
    cases hscan : scanItem usizeMax input offset depth with
    | error e => exact .inl ⟨e, rfl⟩
    | ok stop =>
      obtain ⟨item, rest, hitem, hdrop, rfl⟩ := (scanItem_reads hfit depth _ _).mp hscan
      exact .inr ⟨_, item, rfl, hitem, by rw [hdrop, drop_add_of_append hdrop]; rfl⟩
  · intro levels item suffix hfit hitem hdeep
    cases hscan : scanItem usizeMax (item ++ suffix) 0 0 with
    | error e => exact ⟨e, rfl⟩
    | ok stop =>
      obtain ⟨item', rest, hitem', hdrop, -⟩ := (scanItem_reads hfit 0 _ _).mp hscan
      have heq : item = item' := item_prefixFree ⟨_, hitem⟩ ⟨_, hitem'⟩ hdrop
      exact absurd (heq ▸ hitem') hdeep
  · intro input offset depth hdepth
    rw [scanItem, Nat.sub_eq_zero_of_le hdepth, scanLevels]

/-- Two keys and their values, listed in either order. -/
theorem encoding_is_canonical_reordered :
    encodeValue (.map [(.integer 1, .null), (.text "a", .array [.integer (-1)])]) =
      encodeValue (.map [(.text "a", .array [.integer (-1)]), (.integer 1, .null)]) := by
  have hone : ∀ {k : ℕ}, Valid (k + 1) (.integer 1) := .integer (by decide) (by decide)
  have htext : ∀ {k : ℕ}, Valid (k + 1) (.text "a") := .text (by decide)
  have harray : ∀ {k : ℕ}, Valid (k + 2) (.array [.integer (-1)]) :=
    .array (by decide) (by simpa using .integer (by decide) (by decide))
  have hleft : Encodable (.map [(.integer 1, .null), (.text "a", .array [.integer (-1)])]) :=
    .map (by decide) (by simpa using ⟨hone, htext⟩) (by simpa using ⟨.null, harray⟩)
      (by simpa using nofun)
  have hright : Encodable (.map [(.text "a", .array [.integer (-1)]), (.integer 1, .null)]) :=
    .map (by decide) (by simpa using ⟨htext, hone⟩) (by simpa using ⟨harray, .null⟩)
      (by simpa using nofun)
  refine (encoding_is_canonical 0).2.2.1 _ _ hleft hright ?_
  refine .map (List.Perm.refl _) (List.Perm.swap _ _ _) rfl ?_ ?_
  · simpa using ⟨.integer, .text⟩
  · simpa using ⟨.null, .array rfl (by simpa using .integer)⟩

end KindleBridge.Bundle.Cbor

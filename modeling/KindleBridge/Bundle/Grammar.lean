import KindleBridge.Foundations.Scanning
import KindleBridge.Bundle.Cbor

/-! # What the scanner accepts

The items of canonical CBOR as a grammar of its own, with definite lengths, shortest
arguments and a bound on the nesting. The scanner moves over exactly these items, so they
form a prefix code.
-/

namespace KindleBridge.Bundle.Cbor

open List UInt8

/-! ## Arguments -/

def info (argument : ℕ) : UInt8 :=
  if argument ≤ 23 then UInt8.ofNat argument
  else if argument ≤ 0xff then 24
  else if argument ≤ 0xffff then 25
  else if argument ≤ 0xffffffff then 26
  else 27

def extra (argument : ℕ) : List UInt8 :=
  if argument ≤ 23 then []
  else if argument ≤ 0xff then toBe 1 argument
  else if argument ≤ 0xffff then toBe 2 argument
  else if argument ≤ 0xffffffff then toBe 4 argument
  else toBe 8 argument

theorem encodeArgument_eq (major : UInt8) (argument : ℕ) :
    encodeArgument major argument = (major <<< 5 ||| info argument) :: extra argument := by
  simp only [encodeArgument, info, extra]
  split_ifs <;> rfl

theorem info_lt (argument : ℕ) : (info argument).toNat < 32 := by
  rw [info]
  split_ifs with h
  · rw [toNat_ofNat']
    omega
  all_goals decide

theorem initial_eq (b : UInt8) : (b >>> 5) <<< 5 ||| (b &&& 0x1f) = b := by
  have h : ∀ n : Fin 256,
      (ofFin n >>> 5) <<< 5 ||| (ofFin n &&& 0x1f) = ofFin n := by
    decide +kernel
  exact h b.toFin

theorem major_lt (b : UInt8) : (b >>> 5).toNat < 8 := by
  have h : ∀ n : Fin 256, (ofFin n >>> 5).toNat < 8 := by decide +kernel
  exact h b.toFin

theorem split_initial {major k : UInt8} (hmajor : major.toNat < 8) (hk : k.toNat < 32) :
    (major <<< 5 ||| k) >>> 5 = major ∧ (major <<< 5 ||| k) &&& 0x1f = k := by
  have h : ∀ (m : Fin 8) (n : Fin 32),
      (ofNat m <<< 5 ||| ofNat n) >>> 5 = ofNat m ∧
        (ofNat m <<< 5 ||| ofNat n) &&& 0x1f = ofNat n := by
    decide +kernel
  simpa using h ⟨_, hmajor⟩ ⟨_, hk⟩

variable {input : List UInt8} {offset : ℕ} {width shorter argument n : ℕ} {item : List UInt8}
  {initial : UInt8} {x : List UInt8}

theorem drop_of_getElem? (h : input[offset]? = some initial) :
    input.drop offset = initial :: input.drop (offset + 1) := by
  obtain ⟨hlt, rfl⟩ := List.getElem?_eq_some_iff.mp h
  exact drop_eq_getElem_cons hlt

theorem getElem?_of_drop {rest : List UInt8}
    (h : input.drop offset = initial :: rest) : input[offset]? = some initial := by
  have hhead : (input.drop offset)[0]? = some initial := by rw [h]; rfl
  simpa using hhead

theorem slice?_eq {n : ℕ} (hle : offset ≤ input.length)
    (hlength : x.length = n) (hx : x <+: input.drop offset) :
    slice? input offset (offset + n) = some x := by
  obtain ⟨rest, hrest⟩ := hx
  have hbound := congrArg List.length hrest
  simp only [length_append, length_drop] at hbound
  rw [slice?, if_pos ⟨by omega, by omega⟩, ← hrest, Nat.add_sub_cancel_left, ← hlength, take_left]

theorem slice?_eq_some {n : ℕ}
    (h : slice? input offset (offset + n) = some x) : x.length = n ∧ x <+: input.drop offset := by
  rw [slice?] at h
  split_ifs at h with hbound
  cases h
  constructor
  · simp only [length_take, length_drop]
    omega
  · exact take_prefix _ _

theorem readArgument_iff (hle : offset ≤ input.length) :
    readArgument width shorter input offset = .ok (argument, n) ↔
      shorter < argument ∧ argument < 256 ^ width ∧ n = width ∧
        toBe width argument <+: input.drop offset := by
  constructor
  · intro h
    cases hslice : slice? input offset (offset + width) with
    | none => simp [readArgument, readArray, hslice, bind, Except.bind] at h
    | some x =>
      obtain ⟨hlength, hx⟩ := slice?_eq_some hslice
      simp only [readArgument, readArray, hslice, bind, Except.bind] at h
      split_ifs at h with hshort
      cases h
      have hlt := ofBe_lt x
      have hbytes := toBe_ofBe x
      rw [hlength] at hlt hbytes
      exact ⟨Nat.lt_of_not_le hshort, hlt, rfl, by rwa [hbytes]⟩
  · rintro ⟨hshort, hlt, rfl, hx⟩
    have hslice := slice?_eq hle (length_toBe n argument) hx
    simp only [readArgument, readArray, hslice, bind, Except.bind, ofBe_toBe hlt,
      if_neg (Nat.not_le.mpr hshort)]
    rfl

theorem eq_of_readArgument (hle : offset ≤ input.length)
    (h : readArgument width shorter input offset = .ok (argument, n)) :
    shorter < argument ∧ argument < 256 ^ width ∧ n = (toBe width argument).length ∧
      toBe width argument <+: input.drop offset := by
  rw [length_toBe]
  exact (readArgument_iff hle).mp h

/-- An argument is read exactly if it stands there in its shortest form. -/
theorem decodeArgument_iff {additional : UInt8} {argument n : ℕ} (hle : offset ≤ input.length) :
    decodeArgument input offset additional = .ok (argument, n) ↔
      argument < 2 ^ 64 ∧ additional = info argument ∧ n = (extra argument).length ∧
        extra argument <+: input.drop offset := by
  constructor
  · intro h
    rw [decodeArgument] at h
    split_ifs at h with hsmall h24 h25 h26 h27
    · obtain ⟨rfl, rfl⟩ := Prod.mk.inj (Except.ok.inj h)
      simp only [info, extra, if_pos hsmall, UInt8.ofNat_toNat]
      exact ⟨by omega, trivial, rfl, nil_prefix⟩
    · cases hbyte : input[offset]? with
      | none => simp [hbyte] at h
      | some byte =>
        simp only [hbyte] at h
        split_ifs at h with hshort
        obtain ⟨rfl, rfl⟩ := Prod.mk.inj (Except.ok.inj h)
        have hlt := byte.toNat_lt
        have hone : toBe 1 byte.toNat = [byte] := by simp [toBe, toLe]
        simp only [info, extra, if_neg (show ¬ byte.toNat ≤ 23 by omega),
          if_pos (show byte.toNat ≤ 0xff by omega), hone, drop_of_getElem? hbyte]
        exact ⟨by omega, h24, rfl, by simp⟩
    -- The three wider forms differ in their bounds only.
    all_goals
      obtain ⟨hshort, hlt, hn, hx⟩ := eq_of_readArgument hle h
      have hinfo : additional = info argument := by
        rw [info]
        split_ifs <;> first | assumption | omega
      refine ⟨by omega, hinfo, ?_⟩
      rw [extra]
      split_ifs <;> first | exact ⟨hn, hx⟩ | omega
  · rintro ⟨hlt, rfl, rfl, hx⟩
    simp only [info, extra] at hx ⊢
    split_ifs at hx ⊢ with hsmall h24 h25 h26
    · have hbyte : (ofNat argument).toNat = argument := by
        rw [toNat_ofNat']
        omega
      rw [decodeArgument, hbyte, if_pos hsmall]
      rfl
    · obtain ⟨rest, hrest⟩ := hx
      have hone : toBe 1 argument = [ofNat argument] := by simp [toBe, toLe]
      have hbyte : (ofNat argument).toNat = argument := by
        rw [toNat_ofNat']
        omega
      rw [hone] at hrest
      simp only [decodeArgument, getElem?_of_drop hrest.symm, hbyte,
        if_neg (show ¬ argument < 24 by omega)]
      rfl
    all_goals
      rw [length_toBe]
      exact (readArgument_iff hle).mpr ⟨by omega, by omega, rfl, hx⟩

/-! ## The grammar -/

/-- An item of at most so many levels of nesting. -/
inductive Item : ℕ → List UInt8 → Prop
  | integer {levels argument : ℕ} {major : UInt8} (sign : major = 0 ∨ major = 1)
      (fits : argument < 2 ^ 64) : Item (levels + 1) (encodeArgument major argument)
  | bytes {levels : ℕ} {body : List UInt8} (fits : body.length < 2 ^ 64) :
      Item (levels + 1) (encodeArgument 2 body.length ++ body)
  | text {levels : ℕ} {body : List UInt8} (fits : body.length < 2 ^ 64)
      (utf8 : validUtf8 body) : Item (levels + 1) (encodeArgument 3 body.length ++ body)
  | array {levels : ℕ} {items : List (List UInt8)} (fits : items.length < 2 ^ 64)
      (each : ∀ item ∈ items, Item levels item) :
      Item (levels + 1) (encodeArgument 4 items.length ++ items.flatten)
  | map {levels : ℕ} {entries : List (List UInt8 × List UInt8)} (fits : entries.length < 2 ^ 64)
      (keys : ∀ entry ∈ entries, Item levels entry.1)
      (values : ∀ entry ∈ entries, Item levels entry.2) :
      Item (levels + 1)
        (encodeArgument 5 entries.length ++ (entries.map fun e => e.1 ++ e.2).flatten)
  | simple {levels argument : ℕ} (known : argument = 20 ∨ argument = 21 ∨ argument = 22) :
      Item (levels + 1) (encodeArgument 7 argument)

theorem Item.mono {levels levels' : ℕ} (h : Item levels item)
    (hle : levels ≤ levels') : Item levels' item := by
  induction h generalizing levels' with
    obtain ⟨m, rfl⟩ := Nat.exists_eq_succ_of_ne_zero (show levels' ≠ 0 by omega)
  | integer sign fits => exact .integer sign fits
  | bytes fits => exact .bytes fits
  | text fits utf8 => exact .text fits utf8
  | array fits each ih => exact .array fits fun item hitem => ih item hitem (by omega)
  | map fits keys values ihk ihv =>
    exact .map fits (fun e he => ihk e he (by omega)) fun e he => ihv e he (by omega)
  | simple known => exact .simple known

/-! ## The scanner reads the grammar -/

section
variable {β : Type*} {word : β → List UInt8} {P : β → Prop} {scan : ℕ → Except Error ℕ}

theorem reads_repeated (h : Reads input word P scan) (n : ℕ) :
    Reads input (fun bs : List β => (bs.map word).flatten)
      (fun bs => bs.length = n ∧ ∀ b ∈ bs, P b) (repeated scan n) := by
  induction n with
  | zero =>
    intro offset stop
    constructor
    · intro hok
      cases hok
      exact ⟨[], _, ⟨rfl, by simp⟩, rfl, rfl⟩
    · rintro ⟨bs, rest, ⟨hlength, -⟩, -, rfl⟩
      obtain rfl := length_eq_zero_iff.mp hlength
      rfl
  | succ n ih =>
    intro offset stop
    refine ((h.seq ih) offset stop).trans ?_
    constructor
    · rintro ⟨⟨b, bs⟩, rest, ⟨hb, hlength, hbs⟩, hdrop, hstop⟩
      refine ⟨b :: bs, rest, ⟨by simp [hlength], ?_⟩, by simpa using hdrop, by simpa using hstop⟩
      simpa using ⟨hb, hbs⟩
    · rintro ⟨bs, rest, ⟨hlength, hbs⟩, hdrop, hstop⟩
      obtain ⟨b, bs, rfl⟩ := exists_cons_of_length_eq_add_one hlength
      obtain ⟨hb, hbs⟩ := forall_mem_cons.mp hbs
      exact ⟨(b, bs), rest, ⟨hb, by simpa using hlength, hbs⟩, by simpa using hdrop,
        by simpa using hstop⟩

end

section
variable {usizeMax levels stop position : ℕ}

theorem scanString_iff {isText : Bool} (hfit : input.length ≤ usizeMax)
    (hle : position ≤ input.length) :
    scanString usizeMax input isText argument position = .ok stop ↔
      ∃ body rest, (body.length = argument ∧ (isText → validUtf8 body)) ∧
        input.drop position = body ++ rest ∧ stop = position + body.length := by
  constructor
  · intro h
    rw [scanString] at h
    split_ifs at h with hbig
    · cases h
    · simp only [checkedAdd] at h
      split_ifs at h with hsum
      · cases hslice : slice? input position (position + argument) with
        | none => simp [hslice, bind, Except.bind, throw, throwThe, MonadExceptOf.throw] at h
        | some body =>
          obtain ⟨hlength, rest, hrest⟩ := slice?_eq_some hslice
          simp only [hslice, bind, Except.bind] at h
          split_ifs at h with htext
          cases h
          exact ⟨body, rest, ⟨hlength, by simpa using htext⟩, hrest.symm, by rw [hlength]⟩
      · cases h
  · rintro ⟨body, rest, ⟨rfl, htext⟩, hdrop, rfl⟩
    have hlength := congrArg List.length hdrop
    simp only [length_append, length_drop] at hlength
    have hslice := slice?_eq hle rfl ⟨rest, hdrop.symm⟩
    have hvalid : (isText && !validUtf8 body) = false := by
      cases isText with
      | false => rfl
      | true => simpa using htext rfl
    have hbig : ¬ usizeMax < body.length := by omega
    have hsum : position + body.length ≤ usizeMax := by omega
    simp [scanString, checkedAdd, hbig, hsum, hslice, hvalid, bind, Except.bind, pure, Except.pure]

theorem known_iff {argument : ℕ} :
    ((7 : UInt8) <<< 5 ||| info argument = 0xf4 ∨ (7 : UInt8) <<< 5 ||| info argument = 0xf5 ∨
      (7 : UInt8) <<< 5 ||| info argument = 0xf6) ↔
      argument = 20 ∨ argument = 21 ∨ argument = 22 := by
  have hinfo : ∀ n : Fin 32, (((7 : UInt8) <<< 5 ||| ofNat n = 0xf4 ∨
      (7 : UInt8) <<< 5 ||| ofNat n = 0xf5 ∨ (7 : UInt8) <<< 5 ||| ofNat n = 0xf6) ↔
      n.val = 20 ∨ n.val = 21 ∨ n.val = 22) := by decide +kernel
  have h := hinfo ⟨(info argument).toNat, info_lt argument⟩
  simp only [UInt8.ofNat_toNat] at h
  rw [h, info]
  split_ifs with hsmall
  · rw [toNat_ofNat', Nat.mod_eq_of_lt (by omega)]
  all_goals
    simp only [reduceToNat]
    omega

/-- From `offset` to `stop` stand a head in the shortest form and the body it asks for. -/
abbrev HeadAndBody (usizeMax : ℕ) (input : List UInt8) (levels offset stop : ℕ) : Prop :=
  ∃ (major : UInt8) (argument : ℕ) (rest : List UInt8), major.toNat < 8 ∧
    argument < 2 ^ 64 ∧ input.drop offset = encodeArgument major argument ++ rest ∧
    scanBody usizeMax input (scanLevels usizeMax input levels) (major <<< 5 ||| info argument)
      argument (offset + (encodeArgument major argument).length) = .ok stop

theorem scanLevels_succ (hfit : input.length ≤ usizeMax) :
    scanLevels usizeMax input (levels + 1) offset = .ok stop ↔
      HeadAndBody usizeMax input levels offset stop := by
  constructor
  · intro h
    rw [scanLevels] at h
    cases hinitial : input[offset]? with
    | none => simp [hinitial] at h
    | some initial =>
      have hlt := (List.getElem?_eq_some_iff.mp hinitial).1
      simp only [hinitial] at h
      cases hdecode : decodeArgument input (offset + 1) (initial &&& 0x1f) with
      | error e => simp [hdecode, bind, Except.bind] at h
      | ok pair =>
        obtain ⟨argument, n⟩ := pair
        obtain ⟨hsmall, hinfo, rfl, rest, hrest⟩ := (decodeArgument_iff hlt).mp hdecode
        have hfirst : (initial >>> 5) <<< 5 ||| info argument = initial := by
          rw [← hinfo, initial_eq]
        have hhead : (encodeArgument (initial >>> 5) argument).length =
            1 + (extra argument).length := by
          simp [encodeArgument_eq, Nat.add_comm]
        refine ⟨initial >>> 5, argument, rest, major_lt initial, hsmall, ?_, ?_⟩
        · rw [drop_of_getElem? hinitial, encodeArgument_eq, hfirst, ← hrest, cons_append]
        · simp only [hdecode, bind, Except.bind, checkedAdd] at h
          split_ifs at h with hsum
          · rw [hfirst, hhead]
            exact h
  · rintro ⟨major, argument, rest, hmajor, hsmall, hdrop, hbody⟩
    obtain ⟨hshift, hlow⟩ := split_initial hmajor (info_lt argument)
    have hlength := congrArg List.length hdrop
    rw [encodeArgument_eq, cons_append] at hdrop
    have hinitial := getElem?_of_drop hdrop
    have hlt := (List.getElem?_eq_some_iff.mp hinitial).1
    have htail : extra argument ++ rest = input.drop (offset + 1) :=
      (List.cons.inj (hdrop.symm.trans (drop_of_getElem? hinitial))).2
    have hdecode := (decodeArgument_iff hlt).mpr ⟨hsmall, rfl, rfl, rest, htail⟩
    have hhead : (encodeArgument major argument).length = 1 + (extra argument).length := by
      simp [encodeArgument_eq, Nat.add_comm]
    have hsum : offset + (1 + (extra argument).length) ≤ usizeMax := by
      simp only [length_append, length_drop, hhead] at hlength
      omega
    rw [hhead] at hbody
    simp only [scanLevels, hinitial, hlow, hdecode, bind, Except.bind, checkedAdd, if_pos hsum]
    exact hbody

theorem position_le {head rest : List UInt8} (hpos : 0 < head.length)
    (hdrop : input.drop offset = head ++ rest) : offset + head.length ≤ input.length := by
  have hlength := congrArg List.length hdrop
  simp only [length_append, length_drop] at hlength
  omega

theorem length_encodeArgument_pos (major : UInt8) (argument : ℕ) :
    0 < (encodeArgument major argument).length := by
  rw [encodeArgument_eq]
  exact Nat.succ_pos _

section
variable {rest : List UInt8} (hfit : input.length ≤ usizeMax)
  (ih : Reads input id (Item levels) (scanLevels usizeMax input levels))
include hfit ih

theorem item_of_scanBody {major : UInt8} (hmajor : major.toNat < 8) (hsmall : argument < 2 ^ 64)
    (hdrop : input.drop offset = encodeArgument major argument ++ rest)
    (hbody : scanBody usizeMax input (scanLevels usizeMax input levels)
      (major <<< 5 ||| info argument) argument
      (offset + (encodeArgument major argument).length) = .ok stop) :
    ∃ item rest, Item (levels + 1) item ∧ input.drop offset = item ++ rest ∧
      stop = offset + item.length := by
  have hle := position_le (length_encodeArgument_pos major argument) hdrop
  have hrest := drop_add_of_append hdrop
  obtain ⟨hshift, hlow⟩ := split_initial hmajor (info_lt argument)
  rw [scanBody, hshift] at hbody
  have hdropped : ∀ body tail, rest = body ++ tail →
      input.drop offset = (encodeArgument major argument ++ body) ++ tail := by
    rintro body tail rfl
    rw [hdrop, append_assoc]
  have hitem : ∀ body tail, Item (levels + 1) (encodeArgument major argument ++ body) →
      rest = body ++ tail →
      stop = offset + (encodeArgument major argument).length + body.length →
      ∃ item rest, Item (levels + 1) item ∧ input.drop offset = item ++ rest ∧
        stop = offset + item.length := by
    intro body tail hitem htail hstop
    refine ⟨_, tail, hitem, hdropped body tail htail, ?_⟩
    rw [hstop, length_append, Nat.add_assoc]
  split at hbody
  next hzero =>
    cases hbody
    have hsign : major = 0 := UInt8.toNat_inj.mp hzero
    exact hitem [] rest (by simpa using .integer (.inl hsign) hsmall) rfl rfl
  next hone =>
    cases hbody
    have hsign : major = 1 := UInt8.toNat_inj.mp hone
    exact hitem [] rest (by simpa using .integer (.inr hsign) hsmall) rfl rfl
  next htwo =>
    obtain rfl : major = 2 := UInt8.toNat_inj.mp htwo
    obtain ⟨body, tail, ⟨rfl, -⟩, htail, hstop⟩ := (scanString_iff hfit hle).mp hbody
    exact hitem body tail (.bytes hsmall) (hrest ▸ htail) hstop
  next hthree =>
    obtain rfl : major = 3 := UInt8.toNat_inj.mp hthree
    obtain ⟨body, tail, ⟨rfl, hutf8⟩, htail, hstop⟩ := (scanString_iff hfit hle).mp hbody
    exact hitem body tail (.text hsmall (hutf8 rfl)) (hrest ▸ htail) hstop
  next hfour =>
    obtain rfl : major = 4 := UInt8.toNat_inj.mp hfour
    obtain ⟨items, tail, ⟨rfl, hitems⟩, htail, hstop⟩ := (reads_repeated ih _ _ _).mp hbody
    simp only [map_id] at htail hstop
    exact hitem items.flatten tail (.array hsmall hitems) (hrest ▸ htail) hstop
  next hfive =>
    obtain rfl : major = 5 := UInt8.toNat_inj.mp hfive
    obtain ⟨entries, tail, ⟨rfl, hentries⟩, htail, hstop⟩ :=
      (reads_repeated (ih.seq ih) _ _ _).mp hbody
    have hmap := Item.map hsmall (fun e he => (hentries e he).1) fun e he => (hentries e he).2
    exact hitem _ tail hmap (hrest ▸ htail) hstop
  next => cases hbody
  next h0 h1 h2 h3 h4 h5 h6 =>
    have hseven : major.toNat = 7 := by
      have hother : ∀ n < 8, n ≠ 0 → n ≠ 1 → n ≠ 2 → n ≠ 3 → n ≠ 4 → n ≠ 5 → n ≠ 6 → n = 7 := by
        omega
      exact hother _ hmajor h0 h1 h2 h3 h4 h5 h6
    obtain rfl : major = 7 := UInt8.toNat_inj.mp hseven
    split_ifs at hbody with hknown
    cases hbody
    exact hitem [] rest (by simpa using .simple (known_iff.mp hknown)) rfl rfl

theorem scanBody_of_item (hitem : Item (levels + 1) item)
    (hdrop : input.drop offset = item ++ rest) :
    HeadAndBody usizeMax input levels offset (offset + item.length) := by
  -- The head of the item is the one that the scanner reads.
  have hscan : ∀ (major : UInt8) (argument : ℕ) (body : List UInt8), major.toNat < 8 →
      argument < 2 ^ 64 → item = encodeArgument major argument ++ body →
      (input.drop (offset + (encodeArgument major argument).length) = body ++ rest →
        offset + (encodeArgument major argument).length ≤ input.length →
        scanBody usizeMax input (scanLevels usizeMax input levels)
          (major <<< 5 ||| info argument) argument
          (offset + (encodeArgument major argument).length) =
          .ok (offset + (encodeArgument major argument).length + body.length)) →
      HeadAndBody usizeMax input levels offset (offset + item.length) := by
    rintro major argument body hmajor hsmall rfl hbody
    rw [append_assoc] at hdrop
    refine ⟨major, argument, body ++ rest, hmajor, hsmall, hdrop, ?_⟩
    rw [length_append, ← Nat.add_assoc]
    exact hbody (drop_add_of_append hdrop)
      (position_le (length_encodeArgument_pos major argument) hdrop)
  have hshift : ∀ {major : UInt8} (argument : ℕ), major.toNat < 8 →
      (major <<< 5 ||| info argument) >>> 5 = major := fun argument hmajor =>
    (split_initial hmajor (info_lt argument)).1
  cases hitem with
  | @integer _ argument major sign fits =>
    have hmajor : major.toNat < 8 := by rcases sign with rfl | rfl <;> decide
    refine hscan major argument [] hmajor fits (append_nil _).symm fun _ _ => ?_
    rw [scanBody, hshift argument hmajor]
    rcases sign with rfl | rfl <;> rfl
  | @bytes _ body fits =>
    refine hscan 2 body.length body (by decide) fits rfl fun htail hle => ?_
    rw [scanBody, hshift _ (by decide)]
    exact (scanString_iff hfit hle).mpr ⟨body, rest, ⟨rfl, by simp⟩, htail, rfl⟩
  | @text _ body fits utf8 =>
    refine hscan 3 body.length body (by decide) fits rfl fun htail hle => ?_
    rw [scanBody, hshift _ (by decide)]
    exact (scanString_iff hfit hle).mpr ⟨body, rest, ⟨rfl, fun _ => utf8⟩, htail, rfl⟩
  | @array _ items fits each =>
    refine hscan 4 items.length items.flatten (by decide) fits rfl fun htail _ => ?_
    rw [scanBody, hshift _ (by decide)]
    refine (reads_repeated ih _ _ _).mpr ⟨items, rest, ⟨rfl, each⟩, ?_, ?_⟩
    · simpa only [map_id] using htail
    · simp only [map_id]
  | @map _ entries fits keys values =>
    refine hscan 5 entries.length _ (by decide) fits rfl fun htail _ => ?_
    rw [scanBody, hshift _ (by decide)]
    exact (reads_repeated (ih.seq ih) _ _ _).mpr
      ⟨entries, rest, ⟨rfl, fun e he => ⟨keys e he, values e he⟩⟩, htail, rfl⟩
  | @simple _ argument known =>
    have fits : argument < 2 ^ 64 := by omega
    refine hscan 7 argument [] (by decide) fits (append_nil _).symm fun _ _ => ?_
    rw [scanBody, hshift _ (by decide)]
    exact if_pos (known_iff.mpr known)

end

/-- The scanner moves over the items of the grammar, and over nothing else. -/
theorem scanLevels_reads (hfit : input.length ≤ usizeMax) (levels : ℕ) :
    Reads input id (Item levels) (scanLevels usizeMax input levels) := by
  induction levels with
  | zero =>
    intro offset stop
    constructor
    · intro h
      cases h
    · rintro ⟨item, rest, hitem, -⟩
      cases hitem
  | succ levels ih =>
    intro offset stop
    rw [scanLevels_succ hfit]
    constructor
    · rintro ⟨major, argument, rest, hmajor, hsmall, hdrop, hbody⟩
      exact item_of_scanBody hfit ih hmajor hsmall hdrop hbody
    · rintro ⟨item, rest, hitem, hdrop, rfl⟩
      exact scanBody_of_item hfit ih hitem hdrop

end

theorem item_prefixFree : PrefixFree fun item => ∃ levels, Item levels item := by
  rintro x y s t ⟨m, hx⟩ ⟨n, hy⟩ heq
  have hreads : ∀ input : List UInt8, Reads input id (Item (max m n))
      (scanLevels input.length input (max m n)) := fun input => scanLevels_reads le_rfl _
  exact Reads.prefixFree hreads (hx.mono (le_max_left m n)) (hy.mono (le_max_right m n)) heq

theorem encodeArgument_inj {major major' : UInt8} {argument argument' : ℕ} {x y : List UInt8}
    (hmajor : major.toNat < 8) (hmajor' : major'.toNat < 8) (hfit : argument < 2 ^ 64)
    (hfit' : argument' < 2 ^ 64)
    (h : encodeArgument major argument ++ x = encodeArgument major' argument' ++ y) :
    major = major' ∧ argument = argument' ∧ x = y := by
  rw [encodeArgument_eq, encodeArgument_eq, cons_append, cons_append, List.cons.injEq] at h
  obtain ⟨hinitial, htail⟩ := h
  obtain ⟨hshift, hlow⟩ := split_initial hmajor (info_lt argument)
  obtain ⟨hshift', hlow'⟩ := split_initial hmajor' (info_lt argument')
  rw [hinitial] at hshift hlow
  -- Both arguments are what the decoder reads there.
  have hread : decodeArgument (extra argument ++ x) 0 (info argument) =
      .ok (argument, (extra argument).length) :=
    (decodeArgument_iff (Nat.zero_le _)).mpr ⟨hfit, rfl, rfl, x, rfl⟩
  have hread' : decodeArgument (extra argument ++ x) 0 (info argument') =
      .ok (argument', (extra argument').length) :=
    (decodeArgument_iff (Nat.zero_le _)).mpr ⟨hfit', rfl, rfl, y, htail.symm⟩
  rw [← hlow, hlow', hread'] at hread
  obtain ⟨rfl, -⟩ := Prod.mk.inj (Except.ok.inj hread)
  exact ⟨hshift.symm.trans hshift', rfl, append_cancel_left htail⟩

end KindleBridge.Bundle.Cbor

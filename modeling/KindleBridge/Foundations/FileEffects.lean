import KindleBridge.Foundations.FileSystem

/-! # What file operations change

One lemma for each operation says all that it can do to the entries. What is kept
elsewhere follows from the few changes that there are.
-/

namespace KindleBridge

open List

namespace FileSystem

variable {κ : Type} {s t u : FileSystem κ} {p q r : List κ} {i : ℕ} {bytes : List UInt8}
  {X Y : List κ → Prop}

/-- The entries at these paths and the bytes of the files among them are the same. -/
structure Keeps (X : List κ → Prop) (s t : FileSystem κ) : Prop where
  node : ∀ {p}, X p → t.node p = s.node p
  data : ∀ {p i}, X p → s.node p = some (.file i) → t.data i = s.data i

namespace Keeps

theorem refl (s : FileSystem κ) : Keeps X s s := ⟨fun _ => rfl, fun _ _ => rfl⟩

theorem trans (h : Keeps X s t) (h' : Keeps X t u) : Keeps X s u where
  node hp := (h'.node hp).trans (h.node hp)
  data hp hi := (h'.data hp ((h.node hp).trans hi)).trans (h.data hp hi)

theorem mono (h : Keeps X s t) (hsub : ∀ p, Y p → X p) : Keeps Y s t where
  node hp := h.node (hsub _ hp)
  data hp hi := h.data (hsub _ hp) hi

theorem content (h : Keeps X s t) (hp : X p) : t.content p = s.content p := by
  unfold FileSystem.content
  rw [h.node hp]
  split
  · rename_i i hi
    rw [h.data hp hi]
  · rfl

end Keeps

/-- Only entries at these paths change, and only between files. -/
structure Rewrites (P : List κ → Prop) (s t : FileSystem κ) : Prop where
  keeps : Keeps (fun q => ¬ P q) s t
  files : ∀ {q}, P q → t.node q = none ∨ ∃ i, t.node q = some (.file i)

namespace Rewrites

variable {P Q : List κ → Prop}

theorem mono (h : Rewrites P s t) (hsub : ∀ q, P q → Q q)
    (hs : ∀ q, Q q → s.node q = none ∨ ∃ i, s.node q = some (.file i)) : Rewrites Q s t where
  keeps := h.keeps.mono fun q hq hp => hq (hsub q hp)
  files {q} hq := by
    by_cases hp : P q
    · exact h.files hp
    · rw [h.keeps.node hp]
      exact hs q hq

end Rewrites

/-- No link stands on the way to the path. -/
def Way (s : FileSystem κ) (p : List κ) : Prop := ∀ q, q <+: p → q ≠ p → ¬ s.IsLink q

/-- There are links only where there were some. -/
def NoNewLinks (s t : FileSystem κ) : Prop := ∀ p, t.IsLink p → s.IsLink p

theorem Rewrites.noNewLinks {P : List κ → Prop} (h : Rewrites P s t) : NoNewLinks s t := by
  rintro q ⟨a, l, hq⟩
  by_cases hp : P q
  · rcases h.files hp with hn | ⟨i, hi⟩
    · simp [hn] at hq
    · simp [hi] at hq
  · exact ⟨a, l, (h.keeps.node hp).symm.trans hq⟩

theorem Way.of_noNewLinks (h : s.Way p) (hl : NoNewLinks s t) : t.Way p :=
  fun q hq hne hlink => h q hq hne (hl q hlink)

theorem Way.extend {c : κ} (h : s.Way p) (hl : ¬ s.IsLink p) : s.Way (p ++ [c]) := by
  intro q hq hne
  rcases prefix_concat_iff.mp hq with hq | hq
  · exact absurd hq hne
  · by_cases hqp : q = p
    · rwa [hqp]
    · exact h q hq hqp

theorem way_of_node (h : s.node p ≠ none) : s.Way p :=
  fun _ hq hne => not_isLink_of_dir (node_above h hq hne)

theorem Way.locate (hw : s.Way p) (follow : Bool) (hl : follow = true → ¬ s.IsLink p) :
    s.locate follow p = .ok p ∨ ∃ e, s.locate follow p = .error e := by
  apply locate_of_no_link
  intro q hq hor
  by_cases hqp : q = p
  · rw [hqp]
    rw [hqp] at hor
    exact hl (by simpa using hor)
  · exact hw q hq hqp

variable {n : Node κ} {follow : Bool}

@[simp] theorem node_setData : (s.setData i bytes).node r = s.node r := rfl

@[simp] theorem data_setData {j : ℕ} :
    (s.setData i bytes).data j = if j = i then bytes else s.data j := rfl

theorem keeps_setData (hX : ∀ r, X r → s.node r ≠ some (.file i)) :
    Keeps X s (s.setData i bytes) where
  node _ := rfl
  data {r j} hr hj := by
    have hne : j ≠ i := by
      rintro rfl
      exact hX r hr hj
    simp [hne]

theorem keeps_setData_of_node (hp : s.node p = some (.file i)) (hX : ¬ X p) :
    Keeps X s (s.setData i bytes) :=
  keeps_setData fun _ hr hi => hX (s.inode_inj hp hi ▸ hr)

theorem rewrites_setData (hp : s.node p = some (.file i)) :
    Rewrites (· = p) s (s.setData i bytes) where
  keeps := keeps_setData_of_node hp (by simp)
  files := by
    rintro _ rfl
    simp [hp]

theorem locate_of_file (hp : s.node p = some (.file i)) : s.locate follow p = .ok p :=
  locate_of_node (by simp [hp]) fun _ => not_isLink_of_file hp

theorem locate_of_slot (h : s.Slot p) : s.locate follow p = .ok p := by
  obtain ⟨hne, hdir, hnone⟩ := h
  rw [← dropLast_append_getLast hne] at hnone ⊢
  exact locate_of_parent hdir fun _ => not_isLink_of_none hnone

theorem metadata_ok {m : Metadata} (hw : s.Way p) (hl : follow = true → ¬ s.IsLink p)
    (h : s.metadata follow p = .ok m) : ∃ n, s.node p = some n ∧ m.kind = n.kind := by
  unfold metadata at h
  rcases hw.locate follow hl with hp | ⟨e, hp⟩
  · rw [hp] at h
    cases hn : s.node p with
    | none => simp [hn] at h
    | some n =>
      refine ⟨n, rfl, ?_⟩
      cases n <;> simp_all [Node.kind, eq_comm]
  · simp [hp] at h

theorem metadata_of_node (hn : s.node p = some n) (hl : follow = true → ¬ s.IsLink p) :
    s.metadata follow p = .ok ⟨n.kind, ((s.content p).getD []).length⟩ := by
  unfold metadata
  rw [locate_of_node (by simp [hn]) hl]
  cases n <;> simp [hn, content, Node.kind]

theorem openFile_ok (hw : s.Way p) (hl : ¬ s.IsLink p) (h : s.openFile p = .ok i) :
    s.node p = some (.file i) := by
  unfold openFile at h
  rcases hw.locate true (fun _ => hl) with hp | ⟨e, hp⟩
  · rw [hp] at h
    cases hn : s.node p with
    | none => simp [hn] at h
    | some n => cases n <;> simp_all
  · simp [hp] at h

theorem openFile_of_file (hp : s.node p = some (.file i)) : s.openFile p = .ok i := by
  simp [openFile, locate_of_file hp, hp]

variable [DecidableEq κ]

section Changes

variable {h : s.Slot p} {hb : s.Bare p} {hm : s.Movable p q}

@[simp] theorem node_addDir : (s.addDir p h).node r = if r = p then some .dir else s.node r := rfl

@[simp] theorem node_addFile :
    (s.addFile p h).node r = if r = p then some (.file s.next) else s.node r := rfl

@[simp] theorem data_addFile : (s.addFile p h).data i = if i = s.next then [] else s.data i := rfl

@[simp] theorem node_erase : (s.erase p hb).node r = if r = p then none else s.node r := rfl

@[simp] theorem data_move : (s.move p q hm).data i = s.data i := rfl

theorem node_move : (s.move p q hm).node r = (origin p q r).bind s.node := rfl

theorem Bare.node_eq_none (hb : s.Bare p) (hq : p <+: q) (hne : q ≠ p) : s.node q = none := by
  by_contra hn
  obtain ⟨c, hc⟩ : ∃ c, p ++ [c] <+: q := by
    obtain ⟨rest, rfl⟩ := hq
    cases rest with
    | nil => simp at hne
    | cons c rest => exact ⟨c, rest, by simp⟩
  have hchild : s.node (p ++ [c]) ≠ none := by
    by_cases hcq : p ++ [c] = q
    · rwa [hcq]
    · simp [node_above hn hc hcq]
  have hmem := mem_children.mpr hchild
  simp [hb.2] at hmem

theorem node_move_file (hp : s.node p = some (.file i)) (r : List κ) : (s.move p q hm).node r =
      if r = q then some (.file i) else if r = p then none else s.node r := by
  rw [node_move]
  by_cases hq : q <+: r
  · obtain ⟨rest, rfl⟩ := hq
    rw [origin_below]
    cases rest with
    | nil => simp [hp]
    | cons c rest =>
      have hbelow : s.node (q ++ c :: rest) = none :=
        hm.2.1.node_eq_none (prefix_append _ _) (by simp)
      have hsource : s.node (p ++ c :: rest) = none :=
        node_below_file (by simp [hp]) (prefix_append _ _) (by simp)
      simp [hbelow, hsource]
  · have hne : r ≠ q := by
      rintro rfl
      exact hq (prefix_refl _)
    by_cases hpr : p <+: r
    · by_cases hrp : r = p
      · subst hrp
        simp [origin, hq, hne]
      · have hbelow : s.node r = none := node_below_file (by simp [hp]) hpr hrp
        simp [origin, hq, hpr, hne, hrp, hbelow]
    · have hrp : r ≠ p := by
        rintro rfl
        exact hpr (prefix_refl _)
      simp [origin_elsewhere hpr hq, hne, hrp]

theorem keeps_add {hn : ∀ i, n = .file i → i = s.next} (hX : ¬ X p) :
    Keeps X s (s.add p n h hn) where
  node {r} hr := by
    have hne : r ≠ p := by
      rintro rfl
      exact hX hr
    simp [add, hne]
  data {r j} hr hj := by
    have hlt := s.inode_lt hj
    simp [add, hlt.ne]

theorem keeps_addDir (hX : ¬ X p) : Keeps X s (s.addDir p h) := keeps_add hX

theorem keeps_addFile (hX : ¬ X p) : Keeps X s (s.addFile p h) := keeps_add hX

theorem keeps_move_file (hp : s.node p = some (.file i)) (hXp : ¬ X p) (hXq : ¬ X q) :
    Keeps X s (s.move p q hm) where
  node {r} hr := by
    have hrp : r ≠ p := by
      rintro rfl
      exact hXp hr
    have hrq : r ≠ q := by
      rintro rfl
      exact hXq hr
    simp [node_move_file hp, hrp, hrq]
  data _ _ := rfl

theorem rewrites_addFile : Rewrites (· = p) s (s.addFile p h) where
  keeps := keeps_addFile (by simp)
  files := by
    rintro _ rfl
    simp

theorem rewrites_move (hp : s.node p = some (.file i)) :
    Rewrites (fun r => r = p ∨ r = q) s (s.move p q hm) where
  keeps := keeps_move_file hp (by simp) (by simp)
  files := by
    intro r hr
    rw [node_move_file hp]
    split_ifs with hq hp'
    · exact .inr ⟨i, rfl⟩
    · exact .inl rfl
    · exact absurd hr (by simp [hq, hp'])

theorem noNewLinks_add {hn : ∀ i, n = .file i → i = s.next}
    (hlink : ∀ a l, n ≠ .symlink a l) : NoNewLinks s (s.add p n h hn) := by
  rintro r ⟨a, l, hr⟩
  simp only [add] at hr
  split_ifs at hr
  · exact absurd (Option.some.inj hr) (hlink a l)
  · exact ⟨a, l, hr⟩

theorem noNewLinks_move_file (hp : s.node p = some (.file i)) : NoNewLinks s (s.move p q hm) := by
  rintro r ⟨a, l, hr⟩
  rw [node_move_file hp] at hr
  split_ifs at hr
  · simp at hr
  · exact ⟨a, l, hr⟩

end Changes

/-! ## One lemma for each operation -/

section Outcomes

theorem createDir_cases (hw : s.Way p) : (∃ e, s.createDir p = (.error e, s)) ∨
    ∃ h : s.Slot p, s.createDir p = (.ok (), s.addDir p h) := by
  unfold createDir
  rcases hw.locate false (by simp) with hp | ⟨e, hp⟩
  · rw [hp]
    by_cases h : s.Slot p <;> simp [h]
  · simp [hp]

theorem createDir_of_node (hn : s.node p ≠ none) : s.createDir p = (.error .alreadyExists, s) := by
  have hslot : ¬ s.Slot p := fun h => hn h.2.2
  have hp : s.locate false p = .ok p := locate_of_node hn (by simp)
  simp [createDir, hp, hslot]

theorem create_cases (hw : s.Way p) (hl : ¬ s.IsLink p) : (∃ e, s.create p = (.error e, s)) ∨
    (∃ i, s.node p = some (.file i) ∧ s.create p = (.ok i, s.setData i [])) ∨
      ∃ h : s.Slot p, s.create p = (.ok s.next, s.addFile p h) := by
  unfold create
  rcases hw.locate true (fun _ => hl) with hp | ⟨e, hp⟩
  · rw [hp]
    cases hn : s.node p with
    | none => by_cases h : s.Slot p <;> simp [hn, h]
    | some n => cases n <;> simp [hn]
  · simp [hp]

theorem create_of_file (hp : s.node p = some (.file i)) : s.create p = (.ok i, s.setData i []) := by
  simp [create, locate_of_file hp, hp]

theorem create_of_slot (h : s.Slot p) : s.create p = (.ok s.next, s.addFile p h) := by
  simp [create, locate_of_slot h, h, h.2.2]

theorem rename_cases (hp : s.Way p) (hq : s.Way q) : (∃ e, s.rename p q = (.error e, s)) ∨
    s.node p ≠ none ∧ (p = q ∧ s.rename p q = (.ok (), s) ∨
      ∃ h : s.Movable p q, s.rename p q = (.ok (), s.move p q h)) := by
  unfold rename
  rcases hp.locate false (by simp) with hlp | ⟨e, hlp⟩
  · rcases hq.locate false (by simp) with hlq | ⟨e, hlq⟩
    · rw [hlp, hlq]
      by_cases hn : s.node p = none
      · simp [hn, replaces]
      · by_cases hpq : p = q
        · subst hpq
          simp [hn]
        · cases hr : s.replaces p q with
          | error e => simp [hpq, hr]
          | ok _ => by_cases h : s.Movable p q <;> simp [hpq, hr, h, hn]
    · simp [hlp, hlq]
  · simp [hlp]

theorem rename_of_file (hp : s.node p = some (.file i)) (hpq : p ≠ q)
    (hq : s.Slot q ∨ ∃ j, s.node q = some (.file j)) :
    ∃ h : s.Movable p q, s.rename p q = (.ok (), s.move p q h) := by
  have hlp : s.locate false p = .ok p := locate_of_node (by simp [hp]) (by simp)
  have hpne : p ≠ [] := by
    rintro rfl
    simp [s.node_nil] at hp
  have hprefix : ¬ p <+: q := by
    intro hpre
    have hnone : s.node q = none := node_below_file (by simp [hp]) hpre (Ne.symm hpq)
    rcases hq with hq | ⟨j, hj⟩
    · obtain ⟨hqne, hdir, -⟩ := hq
      have hshort : p <+: q.dropLast := by
        rw [← dropLast_append_getLast hqne] at hpre hpq
        rcases prefix_concat_iff.mp hpre with h | h
        · exact absurd h hpq
        · exact h
      have hpdir := node_above_dir hdir hshort
      simp [hp] at hpdir
    · simp [hj] at hnone
  have hqne : q ≠ [] := by
    rintro rfl
    rcases hq with hq | ⟨j, hj⟩
    · exact hq.1 rfl
    · simp [s.node_nil] at hj
  have hqdir : s.node q ≠ some .dir := by
    rcases hq with hq | ⟨j, hj⟩
    · simp [hq.2.2]
    · simp [hj]
  have hbare : s.Bare q := by
    refine ⟨hqne, eq_nil_iff_forall_not_mem.mpr fun c hc => ?_⟩
    exact mem_children.mp hc (node_below_file hqdir (prefix_append _ _) (by simp))
  have hdir : s.node q.dropLast = some .dir := by
    rcases hq with hq | ⟨j, hj⟩
    · exact hq.2.1
    · have hne : q.dropLast ≠ q := by
        intro he
        have hlen := congrArg List.length he
        simp only [length_dropLast] at hlen
        have := length_pos_iff.mpr hqne
        omega
      exact node_above (by simp [hj]) ( dropLast_prefix q) hne
  have hm : s.Movable p q := ⟨hpne, hbare, hdir, hprefix⟩
  have hlq : s.locate false q = .ok q := by
    rcases hq with hq | ⟨j, hj⟩
    · exact locate_of_slot hq
    · exact locate_of_node (by simp [hj]) (by simp)
  have hreplaces : s.replaces p q = .ok () := by
    rcases hq with hq | ⟨j, hj⟩
    · simp [replaces, hp, hq.2.2]
    · simp [replaces, hp, hj]
  exact ⟨hm, by simp [rename, hlp, hlq, hpq, hreplaces, hm]⟩

end Outcomes

end FileSystem

end KindleBridge

import Interop.Proofs.SymbolTable
import Mathlib.Logic.Relation

/-!
# Slots along inheritance

The slots of a record must keep the places they have in its bases. A layout is followed from one virtual
method to the next (`place_cases`, `Refines`), through the table of known layouts (`Sound`), and along a
chain of first bases. Two methods are the same virtual function when their signatures agree
(`SameSignature`), which is an equivalence and so carries a slot through overrides of overrides.
-/

namespace Interop.Binding.Vtable

open Native

variable {known known' : Layouts} {base id : DeclId} {layout : Layout} {result : LayoutResult} {r : Record}
  {d : Decl} {s : Symbols}

/-! ## Signatures -/

/-- The names of two methods and the spellings of their parameter types agree. -/
def SameSignature (ast : Ast) (a b : DeclId) : Prop :=
  (ast.decl? a).map Decl.name = (ast.decl? b).map Decl.name ∧
    parameterSpellings? ast a = parameterSpellings? ast b

namespace SameSignature

theorem refl (a : DeclId) : SameSignature ast a a := ⟨rfl, rfl⟩

theorem symm (h : SameSignature ast a b) : SameSignature ast b a := ⟨h.1.symm, h.2.symm⟩

theorem trans (h : SameSignature ast a b) (h' : SameSignature ast b c) : SameSignature ast a c :=
  ⟨h.1.trans h'.1, h.2.trans h'.2⟩

end SameSignature

variable {ast : Ast}

theorem overrides_iff (h : overrides? ast derived base = some answer) :
    answer = true ↔ SameSignature ast derived base := by
  simp only [overrides?, bind, Option.bind_eq_some_iff] at h
  obtain ⟨d, hd, b, hb, h⟩ := h
  by_cases hname : d.name = b.name
  · simp only [hname, ne_eq, not_true_eq_false, ite_false, pure,
      Option.bind_eq_some_iff] at h
    obtain ⟨ps, hps, qs, hqs, h⟩ := h
    simp only [Option.some.injEq] at h
    subst h
    simp [SameSignature, hd, hb, hps, hqs, hname]
  · simp only [ne_eq, hname, not_false_eq_true, ite_true, pure, Option.some.injEq] at h
    subst h
    simp [SameSignature, hd, hb, hname]

/-! ## One more virtual method -/

theorem place_cases (h : place? ast method layout = some layout') :
    (∃ before slot rest, layout = before ++ slot :: rest ∧ layout' = before ++ method :: rest ∧
      SameSignature ast method slot) ∨
    (layout' = layout ++ [method] ∧ ∀ slot ∈ layout, ¬ SameSignature ast method slot) := by
  induction layout generalizing layout' with
  | nil =>
    simp only [place?, Option.some.injEq] at h
    exact .inr ⟨h.symm, by simp⟩
  | cons slot rest ih =>
    simp only [place?, bind, Option.bind_eq_some_iff] at h
    obtain ⟨answer, hanswer, h⟩ := h
    cases answer with
    | true =>
      simp only [ite_true, pure, Option.some.injEq] at h
      exact .inl ⟨[], slot, rest, rfl, h.symm, (overrides_iff hanswer).mp rfl⟩
    | false =>
      simp only [Bool.false_eq_true, ite_false, pure, Option.bind_eq_some_iff,
        Option.some.injEq] at h
      obtain ⟨placed, hplaced, rfl⟩ := h
      have hslot : ¬ SameSignature ast method slot :=
        fun hs => Bool.false_ne_true ((overrides_iff hanswer).mpr hs)
      rcases ih hplaced with ⟨before, s, behind, rfl, rfl, hs⟩ | ⟨rfl, hnone⟩
      · exact .inl ⟨slot :: before, s, behind, rfl, rfl, hs⟩
      · exact .inr ⟨rfl, by simpa [hslot] using hnone⟩

/-! ## All members of a record -/

def IsVirtualIn (ast : Ast) (members : List DeclId) (id : DeclId) : Prop :=
  id ∈ members ∧ ∃ d m, ast.decl? id = some d ∧ d.kind = .method m ∧ m.isVirtual = true

def Distinct (ast : Ast) (layout : Layout) : Prop :=
  layout.Pairwise fun a b => ¬ SameSignature ast a b

/-- The second layout has the slots of the first one in their places, and further ones of `own` methods. -/
structure Refines (ast : Ast) (own : DeclId → Prop) (layout layout' : Layout) : Prop where
  kept : ∀ (i : Nat) a, layout[i]? = some a → ∃ b, layout'[i]? = some b ∧ SameSignature ast a b ∧
    (b = a ∨ own b)
  added : ∀ (i : Nat) b, layout.length ≤ i → layout'[i]? = some b → own b ∧
    ∀ a ∈ layout, ¬ SameSignature ast b a
  distinct : Distinct ast layout → Distinct ast layout'

namespace Refines

theorem refl (own : DeclId → Prop) (layout : Layout) : Refines ast own layout layout where
  kept _ a h := ⟨a, h, .refl a, .inl rfl⟩
  added i b hi hb := by
    rw [List.getElem?_eq_none hi] at hb
    cases hb
  distinct h := h

theorem length_le (h : Refines ast own layout layout') : layout.length ≤ layout'.length := by
  rcases Nat.eq_zero_or_pos layout.length with hz | hpos
  · omega
  · have hlast : layout.length - 1 < layout.length := by omega
    obtain ⟨b, hb, -⟩ := h.kept _ _ (List.getElem?_eq_getElem hlast)
    have := (List.getElem?_eq_some_iff.mp hb).1
    omega

theorem mono (h : Refines ast own layout layout') (himp : ∀ id, own id → own' id) :
    Refines ast own' layout layout' where
  kept i a ha := by
    obtain ⟨b, hb, hs, hown⟩ := h.kept i a ha
    exact ⟨b, hb, hs, hown.imp_right (himp b)⟩
  added i b hi hb := ⟨himp b (h.added i b hi hb).1, (h.added i b hi hb).2⟩
  distinct := h.distinct

theorem trans (h : Refines ast own layout layout') (h' : Refines ast own layout' layout'') :
    Refines ast own layout layout'' where
  kept i a ha := by
    obtain ⟨b, hb, hab, hown⟩ := h.kept i a ha
    obtain ⟨c, hc, hbc, hown'⟩ := h'.kept i b hb
    refine ⟨c, hc, hab.trans hbc, ?_⟩
    rcases hown' with rfl | hown'
    · exact hown
    · exact .inr hown'
  added i c hi hc := by
    by_cases hi' : layout'.length ≤ i
    · -- A slot that is new against the second layout matches none of the first, whose slots the
      -- second layout keeps under their signatures.
      obtain ⟨hown, hnone⟩ := h'.added i c hi' hc
      refine ⟨hown, fun a ha hca => ?_⟩
      obtain ⟨j, hj⟩ := List.getElem?_of_mem ha
      obtain ⟨b, hb, hab, -⟩ := h.kept j a hj
      exact hnone b (List.mem_of_getElem? hb) (hca.trans hab)
    · obtain ⟨b, hb⟩ : ∃ b, layout'[i]? = some b :=
        ⟨_, List.getElem?_eq_getElem (Nat.lt_of_not_le hi')⟩
      obtain ⟨hown, hnone⟩ := h.added i b hi hb
      obtain ⟨c', hc', hbc, hown'⟩ := h'.kept i b hb
      obtain rfl := Option.mem_unique hc' hc
      refine ⟨?_, fun a ha hca => hnone a ha (hbc.trans hca)⟩
      rcases hown' with rfl | hown'
      · exact hown
      · exact hown'
  distinct hd := h'.distinct (h.distinct hd)

end Refines

theorem place_refines (h : place? ast method layout = some layout') :
    Refines ast (· = method) layout layout' := by
  rcases place_cases h with ⟨before, slot, rest, rfl, rfl, hsame⟩ | ⟨rfl, hnone⟩
  · refine ⟨fun i a ha => ?_, fun i b hi hb => ?_, fun hd => ?_⟩
    · rcases Nat.lt_trichotomy i before.length with hi | rfl | hi
      · rw [List.getElem?_append_left hi] at ha ⊢
        exact ⟨a, ha, .refl a, .inl rfl⟩
      · simp only [List.getElem?_append_right, Nat.le_refl, Nat.sub_self,
          List.getElem?_cons_zero, Option.some.injEq] at ha
        subst ha
        exact ⟨method, by simp, hsame.symm, .inr rfl⟩
      · obtain ⟨k, rfl⟩ := Nat.exists_eq_add_of_lt hi
        have hk : before.length + k + 1 - before.length = k + 1 := by omega
        rw [List.getElem?_append_right (Nat.le_of_lt hi), hk, List.getElem?_cons_succ] at ha ⊢
        exact ⟨a, ha, .refl a, .inl rfl⟩
    · rw [List.getElem?_eq_none (by simpa using hi)] at hb
      cases hb
    · -- The new method matches the same slots as the one it replaces.
      simp only [Distinct, List.pairwise_append, List.pairwise_cons, List.mem_cons,
        forall_eq_or_imp] at hd ⊢
      refine ⟨hd.1, ⟨fun b hb hs => hd.2.1.1 b hb (hsame.symm.trans hs), hd.2.1.2⟩,
        fun a ha => ⟨fun hs => (hd.2.2 a ha).1 (hs.trans hsame), (hd.2.2 a ha).2⟩⟩
  · refine ⟨fun i a ha => ?_, fun i b hi hb => ?_, fun hd => ?_⟩
    · have hi := (List.getElem?_eq_some_iff.mp ha).1
      exact ⟨a, by rw [List.getElem?_append_left hi, ha], .refl a, .inl rfl⟩
    · rw [List.getElem?_append_right hi] at hb
      obtain rfl : b = method := by simpa using List.mem_of_getElem? hb
      exact ⟨rfl, hnone⟩
    · simp only [Distinct, List.pairwise_append, List.pairwise_singleton, List.mem_singleton,
        forall_eq, true_and]
      exact ⟨hd, fun a ha hs => hnone a ha hs.symm⟩

theorem placeMembers_refines (h : placeMembers? ast layout members = some (.ok layout')) :
    Refines ast (IsVirtualIn ast members) layout layout' := by
  induction members generalizing layout with
  | nil =>
    simp only [placeMembers?, Option.some.injEq, Except.ok.injEq] at h
    exact h ▸ .refl _ _
  | cons member rest ih =>
    have weaken : ∀ id, IsVirtualIn ast rest id → IsVirtualIn ast (member :: rest) id :=
      fun id hid => ⟨List.mem_cons_of_mem _ hid.1, hid.2⟩
    simp only [placeMembers?, bind, Option.bind_eq_some_iff] at h
    obtain ⟨d, hd, h⟩ := h
    split at h
    · rename_i m hm
      split at h
      · obtain ⟨placed, hplaced, h⟩ := Option.bind_eq_some_iff.mp h
        have hown : ∀ id, id = member → IsVirtualIn ast (member :: rest) id := by
          rintro id rfl
          exact ⟨List.mem_cons_self, d, m, hd, hm, by assumption⟩
        exact ((place_refines hplaced).mono hown).trans ((ih h).mono weaken)
      · exact (ih h).mono weaken
    · cases h
    · exact (ih h).mono weaken

/-! ## The table of known layouts -/

/-- How a layout comes about: from the members, on top of the layout of the base. -/
inductive LaidOut (ast : Ast) (definition : DeclId → DeclId) (known : Layouts) (record : DeclId) :
    Layout → Prop
  | root {d : Decl} {r : Record} {layout : Layout} : ast.decl? record = some d →
      d.kind = .record r → r.bases = [] → placeMembers? ast [] r.members = some (.ok layout) →
      LaidOut ast definition known record layout
  | derived {d : Decl} {r : Record} {base : Base} {b : DeclId}
      {inherited layout : Layout} : ast.decl? record = some d → d.kind = .record r →
      r.bases = [base] → ast.recordOf? base.type = some (some b) →
      known.lookup (definition b) = some (.ok inherited) →
      placeMembers? ast inherited r.members = some (.ok layout) →
      LaidOut ast definition known record layout
  | noRecord {d : Decl} : ast.decl? record = some d → (∀ r, d.kind ≠ .record r) →
      LaidOut ast definition known record []

theorem LaidOut.mono (h : LaidOut ast definition known record layout)
    (hgrow : ∀ id result, known.lookup id = some result → known'.lookup id = some result) :
    LaidOut ast definition known' record layout := by
  cases h with
  | root hd hk hb hp => exact .root hd hk hb hp
  | derived hd hk hb hr hl hp => exact .derived hd hk hb hr (hgrow _ _ hl) hp
  | noRecord hd hk => exact .noRecord hd hk

theorem LaidOut.distinct (h : LaidOut ast definition known record layout)
    (hd : ∀ id inherited, known.lookup id = some (.ok inherited) → Distinct ast inherited) :
    Distinct ast layout := by
  cases h with
  | root _ _ _ hp => exact (placeMembers_refines hp).distinct .nil
  | derived _ _ _ _ hl hp => exact (placeMembers_refines hp).distinct (hd _ _ hl)
  | noRecord _ _ => exact .nil

/-- Every record stands once in the table, and every layout comes about from the table. -/
structure Sound (ast : Ast) (definition : DeclId → DeclId) (known : Layouts) : Prop where
  once : (known.map Prod.fst).Nodup
  distinct : ∀ record layout, known.lookup record = some (.ok layout) → Distinct ast layout
  laidOut : ∀ record layout, known.lookup record = some (.ok layout) →
    LaidOut ast definition known record layout

/-- The second table has all entries of the first, and no new one for a record in `pending`. -/
structure Grows (pending : List DeclId) (known known' : Layouts) : Prop where
  kept : ∀ id result, known.lookup id = some result → known'.lookup id = some result
  withheld : ∀ id ∈ pending, known.lookup id = none → known'.lookup id = none

theorem Grows.refl (pending : List DeclId) (known : Layouts) : Grows pending known known :=
  ⟨fun _ _ h => h, fun _ _ h => h⟩

theorem lookup_cons_of_ne (h : id ≠ record) : ((record, result) :: known).lookup id = known.lookup id := by
  simp [List.lookup_cons, beq_eq_false_iff_ne.mpr h]

theorem not_mem_keys_of_lookup_eq_none (h : known.lookup record = none) : record ∉ known.map Prod.fst := by
  intro hmem
  obtain ⟨⟨_, result⟩, hentry, rfl⟩ := List.mem_map.mp hmem
  exact absurd rfl (bne_iff_ne.mp (List.lookup_eq_none_iff.mp h _ hentry))

section Enter

variable {known : Layouts}

theorem Grows.enter (hnew : known.lookup record = none) (hpending : record ∉ pending) :
    Grows pending known ((record, result) :: known) where
  kept id r h := by
    have hne : id ≠ record := by
      rintro rfl
      simp [hnew] at h
    rwa [lookup_cons_of_ne hne]
  withheld id hid h := by
    have hne : id ≠ record := by
      rintro rfl
      exact hpending hid
    rwa [lookup_cons_of_ne hne]

theorem Sound.enter (hs : Sound ast definition known) (hnew : known.lookup record = none)
    (hlaid : ∀ layout, result = .ok layout → LaidOut ast definition known record layout) :
    Sound ast definition ((record, result) :: known) where
  once := by
    rw [List.map_cons, List.nodup_cons]
    exact ⟨not_mem_keys_of_lookup_eq_none hnew, hs.once⟩
  distinct id layout h := by
    by_cases hid : id = record
    · subst hid
      rw [List.lookup_cons_self, Option.some.injEq] at h
      exact (hlaid layout h).distinct hs.distinct
    · rw [lookup_cons_of_ne hid] at h
      exact hs.distinct id layout h
  laidOut id layout h := by
    have hgrow : Grows [] known ((record, result) :: known) := .enter hnew List.not_mem_nil
    by_cases hid : id = record
    · subst hid
      rw [List.lookup_cons_self, Option.some.injEq] at h
      exact (hlaid layout h).mono hgrow.kept
    · rw [lookup_cons_of_ne hid] at h
      exact (hs.laidOut id layout h).mono hgrow.kept

end Enter

/-- What laying out one record does: the table stays sound and grows outside of `pending`. -/
structure LaysOut (ast : Ast) (definition : DeclId → DeclId) (pending : List DeclId)
    (known known' : Layouts) (record : DeclId) (result : LayoutResult) : Prop where
  sound : Sound ast definition known'
  grows : Grows pending known known'
  entered : known'.lookup record = some result ∨ record ∈ pending ∧ ∃ u, result = .error u

def HasFaultyBases (ast : Ast) (r : Record) : Prop :=
  1 < r.bases.length ∨ (∃ b ∈ r.bases, b.isVirtual = true) ∨
    ∃ b ∈ r.bases, ast.recordOf? b.type = some none

theorem baseRecord_cases {found : Except Unsupported (Option DeclId)}
    (h : baseRecord? ast d r = some found) :
    (∃ u, found = .error u ∧ HasFaultyBases ast r) ∨ (found = .ok none ∧ r.bases = []) ∨
    ∃ b base, found = .ok (some base) ∧ r.bases = [b] ∧ b.isVirtual = false ∧
      ast.recordOf? b.type = some (some base) := by
  unfold baseRecord? at h
  split at h
  · cases h
    exact .inr (.inl ⟨rfl, ‹_›⟩)
  · rename_i b hb
    split at h
    · rename_i hvirtual
      cases h
      exact .inl ⟨_, rfl, .inr (.inl ⟨b, by simp [hb], hvirtual⟩)⟩
    · rename_i hvirtual
      obtain ⟨named, hnamed, h⟩ := Option.bind_eq_some_iff.mp h
      cases named with
      | some base =>
        cases h
        exact .inr (.inr ⟨b, base, rfl, hb, by simpa using hvirtual, hnamed⟩)
      | none =>
        obtain ⟨t, -, h⟩ := Option.bind_eq_some_iff.mp h
        cases h
        exact .inl ⟨_, rfl, .inr (.inr ⟨b, by simp [hb], hnamed⟩)⟩
  · rename_i hnone hone
    cases h
    refine .inl ⟨_, rfl, .inl ?_⟩
    rcases hbases : r.bases with _ | ⟨b, _ | ⟨b', rest⟩⟩
    · exact absurd hbases hnone
    · exact absurd hbases (hone b)
    · simp

theorem baseRecord_eq_none (h : baseRecord? ast d r = some (.ok none)) : r.bases = [] := by
  rcases baseRecord_cases h with ⟨u, hu, -⟩ | ⟨-, hbases⟩ | ⟨b, base, hbase, -⟩
  · cases hu
  · exact hbases
  · cases hbase

theorem baseRecord_eq_some (h : baseRecord? ast d r = some (.ok (some base))) :
    ∃ b, r.bases = [b] ∧ ast.recordOf? b.type = some (some base) := by
  rcases baseRecord_cases h with ⟨u, hu, -⟩ | ⟨hnone, -⟩ | ⟨b, base', hbase, hbases, -, hb⟩
  · cases hu
  · cases hnone
  · cases hbase
    exact ⟨b, hbases, hb⟩

theorem laysOut_members (hs : Sound ast definition known') (hgrows : Grows (record :: pending) known known')
    (hnew : known.lookup record = none) (hpending : record ∉ pending)
    (hplaced : placeOn? ast r.members inherited = some result)
    (hlaid : ∀ base layout, inherited = .ok base → placeMembers? ast base r.members = some (.ok layout) →
      LaidOut ast definition known' record layout) :
    LaysOut ast definition pending known ((record, result) :: known') record result := by
  have hnew' : known'.lookup record = none := hgrows.withheld _ List.mem_cons_self hnew
  have hlast : Grows pending known' ((record, result) :: known') := .enter hnew' hpending
  refine ⟨hs.enter hnew' ?_, ⟨fun id r h => hlast.kept id r (hgrows.kept id r h), ?_⟩,
    .inl List.lookup_cons_self⟩
  · rintro layout rfl
    cases inherited with
    | error u => cases hplaced
    | ok base => exact hlaid base layout rfl hplaced
  · exact fun id hid h =>
      hlast.withheld id hid (hgrows.withheld id (List.mem_cons_of_mem _ hid) h)

/-- **One step of the pass.** A record has its entry already, is pending, or gets its entry now. -/
inductive LayOutStep (ast : Ast) (definition : DeclId → DeclId) (fuel : Nat) (pending : List DeclId)
    (known : Layouts) (record : DeclId) : LayoutResult → Layouts → Prop
  | remembered {result : LayoutResult} (hknown : known.lookup record = some result) :
      LayOutStep ast definition fuel pending known record result known
  | cyclic {u : Unsupported} (hpending : record ∈ pending) :
      LayOutStep ast definition fuel pending known record (.error u) known
  | noRecord {d : Decl} (hnew : known.lookup record = none) (hpending : record ∉ pending)
      (hd : ast.decl? record = some d) (hkind : ∀ r, d.kind ≠ .record r) :
      LayOutStep ast definition fuel pending known record (.ok []) ((record, .ok []) :: known)
  | faulty {d : Decl} {r : Record} {u : Unsupported} (hnew : known.lookup record = none)
      (hpending : record ∉ pending) (hd : ast.decl? record = some d) (hkind : d.kind = .record r)
      (hfound : baseRecord? ast d r = some (.error u)) :
      LayOutStep ast definition fuel pending known record (.error u) ((record, .error u) :: known)
  | root {d : Decl} {r : Record} {result : LayoutResult} (hnew : known.lookup record = none)
      (hpending : record ∉ pending) (hd : ast.decl? record = some d) (hkind : d.kind = .record r)
      (hfound : baseRecord? ast d r = some (.ok none))
      (hplaced : placeMembers? ast [] r.members = some result) :
      LayOutStep ast definition fuel pending known record result ((record, result) :: known)
  | derived {d : Decl} {r : Record} {base : DeclId} {inherited result : LayoutResult} {known' : Layouts}
      (hnew : known.lookup record = none) (hpending : record ∉ pending)
      (hd : ast.decl? record = some d) (hkind : d.kind = .record r)
      (hfound : baseRecord? ast d r = some (.ok (some base)))
      (hbase : layOut? ast definition fuel (record :: pending) known base = some (inherited, known'))
      (hplaced : placeOn? ast r.members inherited = some result) :
      LayOutStep ast definition fuel pending known record result ((record, result) :: known')

theorem layOut_step (h : layOut? ast definition (fuel + 1) pending known id = some (result, known')) :
    LayOutStep ast definition fuel pending known (definition id) result known' := by
  simp only [layOut?] at h
  split at h
  · rename_i hknown
    cases h
    exact .remembered hknown
  · rename_i hnew
    obtain ⟨d, hd, h⟩ := Option.bind_eq_some_iff.mp h
    split at h
    · rename_i hpending
      cases h
      exact .cyclic (List.contains_iff_mem.mp hpending)
    · rename_i hpending
      have hpending : definition id ∉ pending := fun hmem => hpending (List.contains_iff_mem.mpr hmem)
      split at h
      · rename_i r hkind
        obtain ⟨found, hfound, h⟩ := Option.bind_eq_some_iff.mp h
        split at h <;>
          obtain ⟨⟨inherited, known₁⟩, hinherited, h⟩ := Option.bind_eq_some_iff.mp h <;>
          obtain ⟨placed, hplaced, h⟩ := Option.bind_eq_some_iff.mp h <;>
          cases h
        · cases hinherited
          cases hplaced
          exact .faulty hnew hpending hd hkind hfound
        · cases hinherited
          exact .root hnew hpending hd hkind hfound hplaced
        · exact .derived hnew hpending hd hkind hfound hinherited hplaced
      · rename_i hkind
        cases h
        exact .noRecord hnew hpending hd hkind

theorem layOut_laysOut (h : layOut? ast definition fuel pending known id = some (result, known'))
    (hs : Sound ast definition known) :
    LaysOut ast definition pending known known' (definition id) result := by
  induction fuel generalizing pending known known' id result with
  | zero => cases h
  | succ fuel ih =>
    cases layOut_step h with
    | remembered hknown => exact ⟨hs, .refl _ _, .inl hknown⟩
    | cyclic hpending =>
      -- The record is its own ancestor. That is refused, and not entered yet.
      exact ⟨hs, .refl _ _, .inr ⟨hpending, _, rfl⟩⟩
    | noRecord hnew hpending hd hkind =>
      refine ⟨hs.enter hnew ?_, .enter hnew hpending, .inl List.lookup_cons_self⟩
      rintro layout ⟨⟩
      exact .noRecord hd hkind
    | faulty hnew hpending hd hkind hfound =>
      exact ⟨hs.enter hnew (by rintro layout ⟨⟩), .enter hnew hpending, .inl List.lookup_cons_self⟩
    | root hnew hpending hd hkind hfound hplaced =>
      refine ⟨hs.enter hnew ?_, .enter hnew hpending, .inl List.lookup_cons_self⟩
      rintro layout rfl
      exact .root hd hkind (baseRecord_eq_none hfound) hplaced
    | derived hnew hpending hd hkind hfound hbase hplaced =>
      -- The base is laid out first, with the record pending, so the record stays without entry.
      obtain ⟨hs₁, hgrows₁, hentered⟩ := ih hbase hs
      refine laysOut_members hs₁ hgrows₁ hnew hpending hplaced ?_
      rintro layout layout' rfl hplaced
      obtain ⟨b, hb, hrecord⟩ := baseRecord_eq_some hfound
      rcases hentered with hentry | ⟨-, u, hu⟩
      · exact .derived hd hkind hb hrecord hentry hplaced
      · cases hu

theorem layOutAll_sound {ids : List DeclId}
    (h : ids.foldlM (fun known id => do return (← layOut? ast definition fuel [] known id).2) known =
      some known') (hs : Sound ast definition known) :
    Sound ast definition known' ∧ Grows [] known known' ∧
      ∀ id ∈ ids, ∃ result, known'.lookup (definition id) = some result := by
  induction ids generalizing known with
  | nil =>
    cases h
    exact ⟨hs, .refl _ _, by simp⟩
  | cons id ids ih =>
    simp only [List.foldlM_cons, bind, pure, Option.bind_eq_some_iff, Option.some.injEq] at h
    obtain ⟨_, ⟨⟨result, known₁⟩, hlay, rfl⟩, h⟩ := h
    obtain ⟨hs₁, hgrows₁, hentered⟩ := layOut_laysOut hlay hs
    obtain ⟨hs', hgrows, hall⟩ := ih h hs₁
    refine ⟨hs', ⟨fun id r h => hgrows.kept id r (hgrows₁.kept id r h), by simp⟩, ?_⟩
    rw [List.forall_mem_cons]
    refine ⟨?_, hall⟩
    rcases hentered with hentry | ⟨hmem, -⟩
    · exact ⟨result, hgrows.kept _ _ hentry⟩
    · cases hmem

theorem Sound.nil (definition : DeclId → DeclId) : Sound ast definition [] :=
  ⟨List.nodup_nil, (fun _ _ h => nomatch h), (fun _ _ h => nomatch h)⟩

theorem lookup_filter (once : (known.map Prod.fst).Nodup) (keep : LayoutResult → Bool) (id : DeclId) :
    (known.filter fun entry => keep entry.2).lookup id = (known.lookup id).filter keep := by
  induction known with
  | nil => rfl
  | cons entry known ih =>
    obtain ⟨record, result⟩ := entry
    obtain ⟨hfresh, honce⟩ := List.nodup_cons.mp once
    have hnone : known.lookup record = none := by
      rw [List.lookup_eq_none_iff]
      intro entry hentry
      rw [bne_iff_ne]
      rintro rfl
      exact hfresh (List.mem_map.mpr ⟨entry, hentry, rfl⟩)
    by_cases hid : id = record
    · subst hid
      by_cases hkeep : keep result
      · rw [List.filter_cons, if_pos hkeep, List.lookup_cons_self, List.lookup_cons_self,
          Option.filter_some_pos hkeep]
      · rw [List.filter_cons, if_neg hkeep, List.lookup_cons_self, ih honce, hnone,
          Option.filter_some_neg (Bool.not_eq_true _ ▸ hkeep), Option.filter_none]
    · by_cases hkeep : keep result
      · simp [hkeep, lookup_cons_of_ne hid, ih honce]
      · simp [hkeep, lookup_cons_of_ne hid, ih honce]

/-! ## Chains of first bases -/

def FirstBase (ast : Ast) (definition : DeclId → DeclId) (record base : DeclId) : Prop :=
  ∃ d r b rest id, ast.decl? record = some d ∧ d.kind = .record r ∧ r.bases = b :: rest ∧
    ast.recordOf? b.type = some (some id) ∧ base = definition id

theorem firstBase_unique (h : FirstBase ast definition record base)
    (h' : FirstBase ast definition record base') : base = base' := by
  obtain ⟨d, r, b, rest, id, hd, hr, hb, hid, rfl⟩ := h
  obtain ⟨d', r', b', rest', id', hd', hr', hb', hid', rfl⟩ := h'
  obtain ⟨rfl, rfl⟩ := record_unique hd hr hd' hr'
  obtain ⟨rfl, -⟩ := List.cons.inj (hb.symm.trans hb')
  rw [Option.some.inj (Option.mem_unique hid hid')]

def DeclaresVirtual (ast : Ast) (record id : DeclId) : Prop :=
  ∃ d r, ast.decl? record = some d ∧ d.kind = .record r ∧ IsVirtualIn ast r.members id

def DeclaresVirtualBelow (ast : Ast) (definition : DeclId → DeclId) (ancestor record id : DeclId) :
    Prop :=
  ∃ between, Relation.ReflTransGen (FirstBase ast definition) record between ∧
    Relation.TransGen (FirstBase ast definition) between ancestor ∧ DeclaresVirtual ast between id

variable {record base ancestor : DeclId} {layout : Layout}

theorem Sound.refines_base (hs : Sound ast definition known)
    (hlayout : known.lookup record = some (.ok layout)) (hbase : FirstBase ast definition record base) :
    ∃ inherited, known.lookup base = some (.ok inherited) ∧
      Refines ast (DeclaresVirtual ast record) inherited layout := by
  obtain ⟨d, r, b, rest, id, hd, hr, hb, hid, rfl⟩ := hbase
  cases hs.laidOut record layout hlayout with
  | root hd' hr' hb' _ =>
    obtain ⟨rfl, rfl⟩ := record_unique hd hr hd' hr'
    rw [hb] at hb'
    cases hb'
  | derived hd' hr' hb' hid' hinherited hplaced =>
    obtain ⟨rfl, rfl⟩ := record_unique hd hr hd' hr'
    rw [hb] at hb'
    cases hb'
    obtain rfl : id = _ := Option.some.inj (Option.mem_unique hid hid')
    exact ⟨_, hinherited, (placeMembers_refines hplaced).mono fun id h => ⟨d, r, hd, hr, h⟩⟩
  | noRecord hd' hr' =>
    obtain rfl := Option.mem_unique hd hd'
    exact absurd hr (hr' r)

theorem Sound.refines_ancestor (hs : Sound ast definition known)
    (hlayout : known.lookup record = some (.ok layout))
    (hancestor : Relation.TransGen (FirstBase ast definition) record ancestor) :
    ∃ inherited, known.lookup ancestor = some (.ok inherited) ∧
      Refines ast (DeclaresVirtualBelow ast definition ancestor record) inherited layout := by
  induction hancestor with
  | single hbase =>
    obtain ⟨inherited, hlookup, hrefines⟩ := hs.refines_base hlayout hbase
    exact ⟨inherited, hlookup, hrefines.mono fun id h => ⟨record, .refl, .single hbase, h⟩⟩
  | tail hchain hbase ih =>
    obtain ⟨middle, hmiddle, hrefines⟩ := ih
    obtain ⟨inherited, hlookup, hrefines'⟩ := hs.refines_base hmiddle hbase
    refine ⟨inherited, hlookup, .trans (hrefines'.mono ?_) (hrefines.mono ?_)⟩
    · exact fun id h => ⟨_, hchain.to_reflTransGen, .single hbase, h⟩
    · rintro id ⟨between, hdown, hup, h⟩
      exact ⟨between, hdown, hup.tail hbase, h⟩

/-! ## The layouts of a tree -/

/-- The vtable layout of a record. Layouts without slots do not stand in the table. -/
def layoutOf (s : Symbols) (record : DeclId) : LayoutResult :=
  (s.vtable? record).getD (.ok [])

theorem sound_of_vtables (h : vtables? ast definition = some table) :
    ∃ known, Sound ast definition known ∧
      table = known.filter (fun entry => !isEmptyLayout entry.2) ∧
      ∀ id, Symbols.IsRecordDefinition ast id →
        ∃ result, known.lookup (definition id) = some result := by
  simp only [vtables?] at h
  obtain ⟨known, hknown, h⟩ := Option.bind_eq_some_iff.mp h
  cases h
  obtain ⟨hs, -, hall⟩ := layOutAll_sound hknown (.nil definition)
  refine ⟨known, hs, rfl, ?_⟩
  rintro id ⟨d, r, hd, hr, hdef⟩
  refine hall id (List.mem_filterMap.mpr ⟨(id, d), Ast.mem_declsWithIds.mpr hd, ?_⟩)
  simp [hr, hdef]

theorem layoutOf_eq_of_lookup (hs : Sound ast s.definition known)
    (htable : s.vtables = known.filter (fun entry => !isEmptyLayout entry.2))
    (h : known.lookup (s.definition record) = some result) : layoutOf s record = result := by
  rw [layoutOf, Symbols.vtable?, htable, lookup_filter hs.once fun r => !isEmptyLayout r, h]
  rcases result with u | _ | ⟨slot, rest⟩ <;> rfl

theorem definition_of_ancestor (hs : s.Describes ast settings)
    (h : Relation.TransGen (FirstBase ast s.definition) record ancestor) :
    s.definition ancestor = ancestor := by
  obtain ⟨_, -, d, r, b, rest, id, -, -, -, -, rfl⟩ := Relation.TransGen.tail'_iff.mp h
  exact hs.definition_definition id

theorem Sound.declaresVirtual_of_no_base (hs : Sound ast definition known)
    (hlayout : known.lookup record = some (.ok layout))
    (hnone : ∀ base, ¬ FirstBase ast definition record base) :
    ∀ b ∈ layout, DeclaresVirtual ast record b := by
  intro b hb
  cases hs.laidOut record layout hlayout with
  | root hd hr _ hplaced =>
    obtain ⟨i, hi⟩ := List.getElem?_of_mem hb
    exact ⟨_, _, hd, hr, ((placeMembers_refines hplaced).added i b (Nat.zero_le i) hi).1⟩
  | derived hd hr hbases hid _ _ => exact absurd ⟨_, _, _, _, _, hd, hr, hbases, hid, rfl⟩ (hnone _)
  | noRecord _ _ => cases hb

/-- **Slots are stable along inheritance.** A record with a layout has the slots of each of its ancestors in
their places, under the same signatures, and no signature has two slots. -/
theorem slots_stable_along_first_bases {settings : Settings} {s : Symbols}
    (hbuild : Symbols.build ast settings = .ok s) (hdef : Symbols.IsRecordDefinition ast record)
    (hlayout : layoutOf s record = .ok layout) :
    (∀ ancestor, Relation.TransGen (FirstBase ast s.definition) record ancestor →
      ∃ inherited, layoutOf s ancestor = .ok inherited ∧ inherited.length ≤ layout.length ∧
        ∀ (i : Nat) a, inherited[i]? = some a → ∃ b, layout[i]? = some b ∧ SameSignature ast a b ∧
          (b = a ∨ DeclaresVirtualBelow ast s.definition ancestor record b)) ∧
    (∀ base inherited, FirstBase ast s.definition record base → layoutOf s base = .ok inherited →
      ∀ (i : Nat) b, inherited.length ≤ i → layout[i]? = some b →
        DeclaresVirtual ast record b ∧ ∀ a ∈ inherited, ¬ SameSignature ast b a) ∧
    ((∀ base, ¬ FirstBase ast s.definition record base) →
      ∀ b ∈ layout, DeclaresVirtual ast record b) ∧
    ∀ (i j : Nat) a b, layout[i]? = some a → layout[j]? = some b → SameSignature ast a b → i = j := by
  have hdesc := Symbols.build_describes hbuild
  obtain ⟨known, hs, htable, hall⟩ := sound_of_vtables hdesc.vtables
  have hself := hdesc.definition_of_isRecordDefinition hdef
  have hknown : known.lookup record = some (.ok layout) := by
    obtain ⟨result, hresult⟩ := hall record hdef
    have heq := layoutOf_eq_of_lookup hs htable hresult
    rw [hself] at hresult
    rw [hresult, ← heq, hlayout]
  have hlayoutOf : ∀ {id result}, Relation.TransGen (FirstBase ast s.definition) record id →
      known.lookup id = some result → layoutOf s id = result := by
    intro id result hancestor hlookup
    refine layoutOf_eq_of_lookup hs htable ?_
    rwa [definition_of_ancestor hdesc hancestor]
  refine ⟨fun ancestor hancestor => ?_, fun base inherited hbase hinherited => ?_,
    hs.declaresVirtual_of_no_base hknown, fun i j a b hi hj hsame => ?_⟩
  · obtain ⟨inherited, hlookup, hrefines⟩ := hs.refines_ancestor hknown hancestor
    exact ⟨inherited, hlayoutOf hancestor hlookup, hrefines.length_le, hrefines.kept⟩
  · obtain ⟨inherited', hlookup, hrefines⟩ := hs.refines_base hknown hbase
    obtain rfl : inherited' = inherited :=
      Except.ok.inj ((hlayoutOf (.single hbase) hlookup).symm.trans hinherited)
    exact hrefines.added
  · have hdistinct := List.pairwise_iff_getElem.mp (hs.distinct record layout hknown)
    obtain ⟨hi', rfl⟩ := List.getElem?_eq_some_iff.mp hi
    obtain ⟨hj', rfl⟩ := List.getElem?_eq_some_iff.mp hj
    rcases Nat.lt_trichotomy i j with hlt | heq | hlt
    · exact absurd hsame (hdistinct i j hi' hj' hlt)
    · exact heq
    · exact absurd hsame.symm (hdistinct j i hj' hi' hlt)

def tiles : Ast where
  file := "tiles.h"
  topLevel := [⟨0⟩, ⟨1⟩, ⟨4⟩, ⟨7⟩, ⟨8⟩]
  decls :=
    #[{ kind := .record { tag := .struct, isDefinition := false }, name := "Shape" },
      { kind := .record { tag := .struct, members := [⟨2⟩, ⟨3⟩] }, name := "Shape" },
      { kind := .method { type := ⟨1⟩, isVirtual := true }, name := "area", parent := some ⟨1⟩ },
      { kind := .method { type := ⟨1⟩, isVirtual := true }, name := "label", parent := some ⟨1⟩ },
      { kind := .record { tag := .struct, bases := [{ type := ⟨3⟩ }], members := [⟨5⟩, ⟨6⟩] },
        name := "Square" },
      { kind := .method { type := ⟨1⟩, isVirtual := true }, name := "label", parent := some ⟨4⟩ },
      { kind := .method { type := ⟨2⟩, isVirtual := true }, name := "area", parent := some ⟨4⟩ },
      { kind := .typedef ⟨4⟩, name := "Cell" },
      { kind := .record { tag := .struct, bases := [{ type := ⟨5⟩ }], members := [⟨9⟩] },
        name := "Tile" },
      { kind := .method { type := ⟨1⟩, isVirtual := true }, name := "area", parent := some ⟨8⟩ }]
  types :=
    #[.ofBuiltin .int,
      { kind := .function { result := ⟨0⟩, params := [] }, spelling := "int ()" },
      { kind := .function { result := ⟨0⟩, params := [⟨0⟩] }, spelling := "int (int)" },
      { kind := .record ⟨0⟩, spelling := "Shape" },
      { kind := .record ⟨4⟩, spelling := "Square" },
      { kind := .typedef ⟨7⟩ ⟨4⟩, spelling := "Cell" }]

def tileSymbols : Symbols where
  names := #["Shape", "Shape", "area", "label", "Square", "label", "area", "Cell", "Tile", "area"]
  anonymous := []
  namingTypedefs := []
  definitions := [(⟨0⟩, ⟨1⟩)]
  shadowed := [⟨0⟩]
  globals := []
  vtables := [(⟨8⟩, .ok [⟨9⟩, ⟨5⟩, ⟨6⟩]), (⟨4⟩, .ok [⟨2⟩, ⟨5⟩, ⟨6⟩]), (⟨1⟩, .ok [⟨2⟩, ⟨3⟩])]

theorem tile_slots_stable :
    Relation.TransGen (FirstBase tiles tileSymbols.definition) ⟨8⟩ ⟨1⟩ ∧
    (∃ inherited, layoutOf tileSymbols ⟨1⟩ = .ok inherited ∧ inherited.length ≤ 3 ∧
      ∀ (i : Nat) a, inherited[i]? = some a → ∃ b, [⟨9⟩, ⟨5⟩, ⟨6⟩][i]? = some b ∧
        SameSignature tiles a b ∧
        (b = a ∨ DeclaresVirtualBelow tiles tileSymbols.definition ⟨1⟩ ⟨8⟩ b)) ∧
    ∀ a ∈ [⟨2⟩, ⟨3⟩], ¬ SameSignature tiles ⟨6⟩ a := by
  have hbuild : Symbols.build tiles {} = .ok tileSymbols := rfl
  have hsquare : FirstBase tiles tileSymbols.definition ⟨4⟩ ⟨1⟩ :=
    ⟨_, _, _, _, ⟨0⟩, rfl, rfl, rfl, rfl, rfl⟩
  have htile : FirstBase tiles tileSymbols.definition ⟨8⟩ ⟨4⟩ :=
    ⟨_, _, _, _, ⟨4⟩, rfl, rfl, rfl, rfl, rfl⟩
  have hchain := Relation.TransGen.tail (.single htile) hsquare
  refine ⟨hchain, ?_, ?_⟩
  · exact (slots_stable_along_first_bases hbuild ⟨_, _, rfl, rfl, rfl⟩
      (show layoutOf tileSymbols ⟨8⟩ = .ok [⟨9⟩, ⟨5⟩, ⟨6⟩] from rfl)).1 ⟨1⟩ hchain
  · exact ((slots_stable_along_first_bases hbuild ⟨_, _, rfl, rfl, rfl⟩
      (show layoutOf tileSymbols ⟨4⟩ = .ok [⟨2⟩, ⟨5⟩, ⟨6⟩] from rfl)).2.1 ⟨1⟩ _ hsquare rfl
      2 ⟨6⟩ (by decide) rfl).2

end Interop.Binding.Vtable

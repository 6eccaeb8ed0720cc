import Interop.Proofs.Completion.Symbols

/-!
# The pass over inheritance chains

All vtables are laid out in one pass that remembers what it has laid out and which records it is working
on. This module says what the pass computes without mention of either: no layout if the chain of first
bases is faulty (`IsFaulty`), and otherwise that of the plain recursion (`plainLayout?`). An entry that is
made in the middle of a cycle stays in the table for records outside of it; `layOut_meets` shows that it is
right there too. So the result does not depend on the order of the records (`SameOutcome`).
-/

namespace Interop.Binding.Vtable

open Native Relation

variable {ast : Ast} {definition : DeclId → DeclId}
variable {result : LayoutResult} {record id : DeclId} {known : Layouts} {fuel : Nat} {layout : Layout}

/-! ## Faults -/

def HasVirtualDestructor (ast : Ast) (members : List DeclId) : Prop :=
  ∃ member ∈ members, ∃ d body, ast.decl? member = some d ∧ d.kind = .destructor true body

/-- **A record with a fault of its own**: its bases give no single vtable, or its destructor is virtual. -/
def HasFault (ast : Ast) (record : DeclId) : Prop :=
  ∃ d r, ast.decl? record = some d ∧ d.kind = .record r ∧
    (HasFaultyBases ast r ∨ HasVirtualDestructor ast r.members)

def OnChain (ast : Ast) (definition : DeclId → DeclId) : DeclId → DeclId → Prop :=
  ReflTransGen (FirstBase ast definition)

def ChainRepeats (ast : Ast) (definition : DeclId → DeclId) (record : DeclId) : Prop :=
  ∃ other, OnChain ast definition record other ∧ TransGen (FirstBase ast definition) other other

def IsFaulty (ast : Ast) (definition : DeclId → DeclId) (record : DeclId) : Prop :=
  ChainRepeats ast definition record ∨ ∃ other, OnChain ast definition record other ∧ HasFault ast other

theorem IsFaulty.of_base (hstep : FirstBase ast definition record base)
    (h : IsFaulty ast definition base) : IsFaulty ast definition record := by
  rcases h with ⟨other, hchain, hcycle⟩ | ⟨other, hchain, hfault⟩
  · exact .inl ⟨other, .head hstep hchain, hcycle⟩
  · exact .inr ⟨other, .head hstep hchain, hfault⟩

theorem isFaulty_iff : IsFaulty ast definition record ↔
    HasFault ast record ∨ ∃ base, FirstBase ast definition record base ∧ IsFaulty ast definition base := by
  constructor
  · rintro (⟨other, hchain, hcycle⟩ | ⟨other, hchain, hfault⟩)
    · rcases hchain.cases_head with rfl | ⟨base, hstep, hrest⟩
      · obtain ⟨base, hstep, hback⟩ := TransGen.head'_iff.mp hcycle
        exact .inr ⟨base, hstep, .inl ⟨record, hback, hcycle⟩⟩
      · exact .inr ⟨base, hstep, .inl ⟨other, hrest, hcycle⟩⟩
    · rcases hchain.cases_head with rfl | ⟨base, hstep, hrest⟩
      · exact .inl hfault
      · exact .inr ⟨base, hstep, .inr ⟨other, hrest, hfault⟩⟩
  · rintro (hfault | ⟨base, hstep, h⟩)
    · exact .inr ⟨record, .refl, hfault⟩
    · exact h.of_base hstep

/-! ## The plain recursion -/

/-- **The layout of a record by plain recursion** along its chain, where nothing is remembered. -/
def plainLayout? (ast : Ast) (definition : DeclId → DeclId) : (fuel : Nat) → DeclId → Option LayoutResult
  | 0, _ => none
  | fuel + 1, record => do
    let d ← ast.decl? record
    match d.kind with
    | .record r =>
      match ← baseRecord? ast d r with
      | .error u => return .error u
      | .ok none => placeMembers? ast [] r.members
      | .ok (some base) => placeOn? ast r.members (← plainLayout? ast definition fuel (definition base))
    | _ => return .ok []

theorem plainLayout_succ (h : plainLayout? ast definition fuel record = some result) :
    plainLayout? ast definition (fuel + 1) record = some result := by
  induction fuel generalizing record result with
  | zero => cases h
  | succ fuel ih =>
    rw [plainLayout?] at h ⊢
    obtain ⟨d, hd, h⟩ := Option.bind_eq_some_iff.mp h
    refine Option.bind_eq_some_iff.mpr ⟨d, hd, ?_⟩
    split at h
    · obtain ⟨found, hfound, h⟩ := Option.bind_eq_some_iff.mp h
      refine Option.bind_eq_some_iff.mpr ⟨found, hfound, ?_⟩
      split at h
      · exact h
      · exact h
      · obtain ⟨inherited, hinherited, h⟩ := Option.bind_eq_some_iff.mp h
        exact Option.bind_eq_some_iff.mpr ⟨inherited, ih hinherited, h⟩
    · exact h

theorem plainLayout_add (h : plainLayout? ast definition fuel record = some result) (more : Nat) :
    plainLayout? ast definition (fuel + more) record = some result := by
  induction more with
  | zero => exact h
  | succ more ih => exact plainLayout_succ ih

theorem plainLayout_unique (h : plainLayout? ast definition fuel record = some result)
    (h' : plainLayout? ast definition fuel' record = some result') : result = result' := by
  have hmore := plainLayout_add h fuel'
  rw [Nat.add_comm] at hmore
  exact Option.mem_unique hmore (plainLayout_add h' fuel)

/-! ## What a record gets -/

theorem placeMembers_error_iff (h : placeMembers? ast layout members = some result) :
    (∃ u, result = .error u) ↔ HasVirtualDestructor ast members := by
  induction members generalizing layout with
  | nil =>
    cases h
    simp [HasVirtualDestructor]
  | cons member rest ih =>
    have hskip : ∀ {d : Decl}, ast.decl? member = some d → (∀ body, d.kind ≠ .destructor true body) →
        (HasVirtualDestructor ast (member :: rest) ↔ HasVirtualDestructor ast rest) := by
      intro d hd hkind
      simp only [HasVirtualDestructor, List.mem_cons, exists_eq_or_imp, hd, Option.some.injEq,
        hkind, exists_false, false_or, ↓existsAndEq, true_and]
    simp only [placeMembers?, bind, Option.bind_eq_some_iff] at h
    obtain ⟨d, hd, h⟩ := h
    split at h
    · rename_i hkind
      rw [hskip hd (by simp [hkind])]
      split at h
      · obtain ⟨placed, -, h⟩ := Option.bind_eq_some_iff.mp h
        exact ih h
      · exact ih h
    · rename_i body hkind
      cases h
      exact iff_of_true ⟨_, rfl⟩ ⟨member, .head _, d, body, hd, hkind⟩
    · rename_i hkind
      rw [hskip hd hkind]
      exact ih h

theorem not_hasFaultyBases_of_baseRecord {base : Option DeclId} (h : baseRecord? ast d r = some (.ok base)) :
    ¬ HasFaultyBases ast r := by
  rcases baseRecord_cases h with ⟨u, hu, -⟩ | ⟨-, hbases⟩ | ⟨b, base', -, hbases, hvirtual, hb⟩
  · cases hu
  · simp [HasFaultyBases, hbases]
  · simp [HasFaultyBases, hbases, hvirtual, hb]

/-- **What a result says about its record**, in terms of the plain recursion. -/
def Meets (ast : Ast) (definition : DeclId → DeclId) (record : DeclId) : LayoutResult → Prop
  | .ok layout => ¬ IsFaulty ast definition record ∧
      ∃ fuel, plainLayout? ast definition fuel record = some (.ok layout)
  | .error _ => IsFaulty ast definition record

theorem Meets.isFaulty_iff (h : Meets ast definition record result) :
    IsFaulty ast definition record ↔ ∃ u, result = .error u := by
  cases result with
  | error u => exact iff_of_true h ⟨u, rfl⟩
  | ok layout => exact iff_of_false h.1 (by simp)

variable (definition) in
theorem meets_noRecord (hd : ast.decl? record = some d) (hkind : ∀ r, d.kind ≠ .record r) :
    Meets ast definition record (.ok []) := by
  have hnone : ∀ d' r, ast.decl? record = some d' → d'.kind ≠ .record r := by
    intro d' r hd'
    obtain rfl := Option.mem_unique hd hd'
    exact hkind r
  refine ⟨fun hfaulty => ?_, 1, ?_⟩
  · rcases Vtable.isFaulty_iff.mp hfaulty with ⟨d', r, hd', hr, -⟩ | ⟨_, ⟨d', r, _, _, _, hd', hr, -⟩, -⟩
    · exact hnone d' r hd' hr
    · exact hnone d' r hd' hr
  · simp only [plainLayout?, hd, bind, Option.bind_some, pure]

section Record

variable {record : DeclId} {d : Decl} {r : Record} (hd : ast.decl? record = some d)
  (hkind : d.kind = .record r)
include hd hkind

theorem hasFault_iff : HasFault ast record ↔
    HasFaultyBases ast r ∨ HasVirtualDestructor ast r.members := by
  simp [HasFault, hd, hkind]

variable (definition) in
theorem firstBase_of_baseRecord (hfound : baseRecord? ast d r = some (.ok (some base))) :
    FirstBase ast definition record (definition base) := by
  obtain ⟨b, hbases, hb⟩ := baseRecord_eq_some hfound
  exact ⟨d, r, b, [], base, hd, hkind, hbases, hb, rfl⟩

theorem plainLayout_root (hfound : baseRecord? ast d r = some (.ok none)) (fuel : Nat) :
    plainLayout? ast definition (fuel + 1) record = placeMembers? ast [] r.members := by
  simp only [plainLayout?, hd, bind, Option.bind_some, hkind, hfound]

theorem plainLayout_derived (hfound : baseRecord? ast d r = some (.ok (some base)))
    (hlayout : plainLayout? ast definition fuel (definition base) = some (.ok layout)) :
    plainLayout? ast definition (fuel + 1) record = placeMembers? ast layout r.members := by
  simp only [plainLayout?, hd, bind, Option.bind_some, hkind, hfound, hlayout, placeOn?]

variable (definition) in
theorem meets_of_baseRecord_error (hfound : baseRecord? ast d r = some (.error u)) :
    Meets ast definition record (.error u) := by
  rcases baseRecord_cases hfound with ⟨u', -, hfault⟩ | ⟨hnone, -⟩ | ⟨b, base, hbase, -⟩
  · exact .inr ⟨record, .refl, (hasFault_iff hd hkind).mpr (.inl hfault)⟩
  · cases hnone
  · cases hbase

theorem meets_placed (hbases : ¬ HasFaultyBases ast r)
    (hnext : ∀ base, FirstBase ast definition record base → ¬ IsFaulty ast definition base)
    (hplain : plainLayout? ast definition (fuel + 1) record = placeMembers? ast layout r.members)
    (h : placeMembers? ast layout r.members = some result) : Meets ast definition record result := by
  cases result with
  | error u =>
    have hfault : HasFault ast record :=
      (hasFault_iff hd hkind).mpr (.inr ((placeMembers_error_iff h).mp ⟨u, rfl⟩))
    exact .inr ⟨record, .refl, hfault⟩
  | ok layout' =>
    refine ⟨fun hfaulty => ?_, fuel + 1, hplain.trans h⟩
    rcases Vtable.isFaulty_iff.mp hfaulty with hfault | ⟨base, hstep, hbase⟩
    · rcases (hasFault_iff hd hkind).mp hfault with hfault | hfault
      · exact hbases hfault
      · obtain ⟨u, hu⟩ := (placeMembers_error_iff h).mpr hfault
        cases hu
    · exact hnext base hstep hbase

variable (definition) in
theorem meets_root (hfound : baseRecord? ast d r = some (.ok none))
    (h : placeMembers? ast [] r.members = some result) : Meets ast definition record result := by
  have hbases : r.bases = [] := baseRecord_eq_none hfound
  refine meets_placed hd hkind (not_hasFaultyBases_of_baseRecord hfound) ?_
    (plainLayout_root hd hkind hfound 0) h
  rintro base ⟨d', r', b, rest, id, hd', hkind', hb, -, -⟩
  obtain ⟨rfl, rfl⟩ := record_unique hd hkind hd' hkind'
  rw [hbases] at hb
  cases hb

theorem meets_derived (hfound : baseRecord? ast d r = some (.ok (some base)))
    (hinherited : Meets ast definition (definition base) inherited)
    (h : placeOn? ast r.members inherited = some result) : Meets ast definition record result := by
  have hstep := firstBase_of_baseRecord definition hd hkind hfound
  cases inherited with
  | error u =>
    cases h
    exact IsFaulty.of_base hstep hinherited
  | ok layout =>
    obtain ⟨hsound, fuel, hlayout⟩ := hinherited
    refine meets_placed hd hkind ?_ ?_ (plainLayout_derived hd hkind hfound hlayout) h
    · exact not_hasFaultyBases_of_baseRecord hfound
    · intro base' hstep'
      rwa [← firstBase_unique hstep hstep']

end Record

/-! ## What one step of the pass does -/

def AllMeet (ast : Ast) (definition : DeclId → DeclId) (known : Layouts) : Prop :=
  ∀ record result, known.lookup record = some result → Meets ast definition record result

theorem AllMeet.enter (h : AllMeet ast definition known) (hresult : Meets ast definition record result) :
    AllMeet ast definition ((record, result) :: known) := by
  intro other result' hlookup
  by_cases hother : other = record
  · subst hother
    rw [List.lookup_cons_self] at hlookup
    cases hlookup
    exact hresult
  · rw [lookup_cons_of_ne hother] at hlookup
    exact h other result' hlookup

theorem layOut_meets (h : layOut? ast definition fuel pending known id = some (result, known'))
    (hknown : AllMeet ast definition known)
    (hpending : ∀ p ∈ pending, TransGen (FirstBase ast definition) p (definition id)) :
    Meets ast definition (definition id) result ∧ AllMeet ast definition known' := by
  induction fuel generalizing pending known known' id result with
  | zero => cases h
  | succ fuel ih =>
    cases layOut_step h with
    | remembered hdone => exact ⟨hknown _ _ hdone, hknown⟩
    | cyclic hmem => exact ⟨.inl ⟨_, .refl, hpending _ hmem⟩, hknown⟩
    | noRecord _ _ hd hkind =>
      have hmeets := meets_noRecord definition hd hkind
      exact ⟨hmeets, hknown.enter hmeets⟩
    | faulty _ _ hd hkind hfound =>
      have hmeets := meets_of_baseRecord_error definition hd hkind hfound
      exact ⟨hmeets, hknown.enter hmeets⟩
    | root _ _ hd hkind hfound hplaced =>
      have hmeets := meets_root definition hd hkind hfound hplaced
      exact ⟨hmeets, hknown.enter hmeets⟩
    | derived _ _ hd hkind hfound hbase hplaced =>
      have hstep := firstBase_of_baseRecord definition hd hkind hfound
      obtain ⟨hinherited, hknown'⟩ := ih hbase hknown <| by
        rw [List.forall_mem_cons]
        exact ⟨.single hstep, fun p hp => (hpending p hp).tail hstep⟩
      have hmeets := meets_derived hd hkind hfound hinherited hplaced
      exact ⟨hmeets, hknown'.enter hmeets⟩

def LeadsTo (ast : Ast) (definition : DeclId → DeclId) (record next : DeclId) : Prop :=
  ∃ d r base, ast.decl? record = some d ∧ d.kind = .record r ∧
    baseRecord? ast d r = some (.ok (some base)) ∧ next = definition base

def IsKnown (known : Layouts) (record : DeclId) : Prop :=
  ∃ result, known.lookup record = some result

theorem isKnown_cons {other : DeclId} :
    IsKnown ((record, result) :: known) other ↔ other = record ∨ IsKnown known other := by
  by_cases hother : other = record
  · subst hother
    exact iff_of_true ⟨result, List.lookup_cons_self⟩ (.inl rfl)
  · simp only [IsKnown, lookup_cons_of_ne hother, hother, false_or]

theorem leadsTo_of_layOut (h : layOut? ast definition fuel pending known id = some (result, known'))
    (hrecord : IsKnown known' record) :
    IsKnown known record ∨ ReflTransGen (LeadsTo ast definition) (definition id) record := by
  induction fuel generalizing pending known known' id result with
  | zero => cases h
  | succ fuel ih =>
    cases layOut_step h with
    | remembered => exact .inl hrecord
    | cyclic => exact .inl hrecord
    | noRecord | faulty | root =>
      rcases isKnown_cons.mp hrecord with rfl | hrecord
      · exact .inr .refl
      · exact .inl hrecord
    | derived _ _ hd hkind hfound hbase _ =>
      rcases isKnown_cons.mp hrecord with rfl | hrecord
      · exact .inr .refl
      · have hstep : LeadsTo ast definition (definition id) _ := ⟨_, _, _, hd, hkind, hfound, rfl⟩
        exact (ih hbase hrecord).imp_right (.head hstep)

def IsClosed (ast : Ast) (definition : DeclId → DeclId) (pending : List DeclId) (known : Layouts) : Prop :=
  ∀ record next, IsKnown known record → LeadsTo ast definition record next →
    IsKnown known next ∨ next ∈ pending

theorem IsClosed.enter (h : IsClosed ast definition (record :: pending) known)
    (hnext : ∀ next, LeadsTo ast definition record next → IsKnown known next ∨ next ∈ record :: pending) :
    IsClosed ast definition pending ((record, result) :: known) := by
  intro other next hother hleads
  have hcases : IsKnown known next ∨ next ∈ record :: pending := by
    rcases isKnown_cons.mp hother with rfl | hother
    · exact hnext next hleads
    · exact h other next hother hleads
  rw [isKnown_cons]
  rcases hcases with hnext | hnext
  · exact .inl (.inr hnext)
  · rcases List.mem_cons.mp hnext with rfl | hnext
    · exact .inl (.inl rfl)
    · exact .inr hnext

theorem IsClosed.mono (h : IsClosed ast definition pending known) (record : DeclId) :
    IsClosed ast definition (record :: pending) known :=
  fun other next hother hleads => (h other next hother hleads).imp_right (.tail _)

theorem layOut_isClosed (h : layOut? ast definition fuel pending known id = some (result, known'))
    (hs : Sound ast definition known) (hclosed : IsClosed ast definition pending known) :
    IsClosed ast definition pending known' := by
  -- A record that leads on has one good base, and that is the one which was laid out.
  have hsame : ∀ {record next d r found}, LeadsTo ast definition record next → ast.decl? record = some d →
      d.kind = .record r → baseRecord? ast d r = some found →
      ∃ base, found = .ok (some base) ∧ next = definition base := by
    rintro record next d r found ⟨d', r', base, hd', hkind', hfound', rfl⟩ hd hkind hfound
    obtain ⟨rfl, rfl⟩ := record_unique hd hkind hd' hkind'
    exact ⟨base, Option.mem_unique hfound hfound', rfl⟩
  induction fuel generalizing pending known known' id result with
  | zero => cases h
  | succ fuel ih =>
    cases layOut_step h with
    | remembered => exact hclosed
    | cyclic => exact hclosed
    | noRecord _ _ hd hkind =>
      refine (hclosed.mono _).enter ?_
      rintro next ⟨d', r, base, hd', hr, -, -⟩
      exact absurd (Option.mem_unique hd hd' ▸ hr) (hkind r)
    | faulty _ _ hd hkind hfound =>
      refine (hclosed.mono _).enter fun next hleads => ?_
      obtain ⟨base, hbase, -⟩ := hsame hleads hd hkind hfound
      cases hbase
    | root _ _ hd hkind hfound _ =>
      refine (hclosed.mono _).enter fun next hleads => ?_
      obtain ⟨base, hbase, -⟩ := hsame hleads hd hkind hfound
      cases hbase
    | derived _ _ hd hkind hfound hbase _ =>
      refine (ih hbase hs (hclosed.mono _)).enter fun next hleads => ?_
      obtain ⟨base, hsome, rfl⟩ := hsame hleads hd hkind hfound
      cases hsome
      rcases (layOut_laysOut hbase hs).entered with hentry | ⟨hmem, -⟩
      · exact .inl ⟨_, hentry⟩
      · exact .inr hmem

/-! ## The whole pass -/

structure Covers (ast : Ast) (definition : DeclId → DeclId) (ids : List DeclId) (known : Layouts) :
    Prop where
  sound : Sound ast definition known
  meets : AllMeet ast definition known
  closed : IsClosed ast definition [] known
  entered : ∀ id ∈ ids, IsKnown known (definition id)
  reached : ∀ record, IsKnown known record →
    ∃ id ∈ ids, ReflTransGen (LeadsTo ast definition) (definition id) record

namespace Covers

theorem nil (ast : Ast) (definition : DeclId → DeclId) : Covers ast definition [] [] where
  sound := .nil definition
  meets _ _ h := by cases h
  closed _ _ h := by
    obtain ⟨_, h⟩ := h
    cases h
  entered := by simp
  reached _ h := by
    obtain ⟨_, h⟩ := h
    cases h

theorem layOut (hc : Covers ast definition ids known) {id : DeclId} {result : LayoutResult}
    (h : layOut? ast definition fuel [] known id = some (result, known')) :
    Covers ast definition (id :: ids) known' := by
  obtain ⟨hs, hgrows, hentered⟩ := layOut_laysOut h hc.sound
  refine ⟨hs, (layOut_meets h hc.meets (by simp)).2, layOut_isClosed h hc.sound hc.closed, ?_, ?_⟩
  · rw [List.forall_mem_cons]
    refine ⟨?_, fun id hid => ?_⟩
    · rcases hentered with hentry | ⟨hmem, -⟩
      · exact ⟨result, hentry⟩
      · cases hmem
    · obtain ⟨result', hresult'⟩ := hc.entered id hid
      exact ⟨result', hgrows.kept _ _ hresult'⟩
  · intro record hrecord
    rcases leadsTo_of_layOut h hrecord with hold | hleads
    · obtain ⟨id', hid', hleads⟩ := hc.reached record hold
      exact ⟨id', .tail _ hid', hleads⟩
    · exact ⟨id, .head _, hleads⟩

theorem layOutAll (hc : Covers ast definition ids known) {more : List DeclId}
    (h : more.foldlM (fun known id => do return (← layOut? ast definition fuel [] known id).2) known =
      some known') : ∃ all, all.Perm (more ++ ids) ∧ Covers ast definition all known' := by
  induction more generalizing ids known with
  | nil =>
    cases h
    exact ⟨ids, .refl _, hc⟩
  | cons id more ih =>
    simp only [List.foldlM_cons, bind, pure, Option.bind_eq_some_iff, Option.some.injEq] at h
    obtain ⟨_, ⟨⟨result, known₁⟩, hlay, rfl⟩, h⟩ := h
    obtain ⟨all, hall, hcovers⟩ := ih (hc.layOut hlay) h
    exact ⟨all, hall.trans List.perm_middle, hcovers⟩

theorem isKnown_iff (hc : Covers ast definition ids known) {record : DeclId} :
    IsKnown known record ↔ ∃ id ∈ ids, ReflTransGen (LeadsTo ast definition) (definition id) record := by
  refine ⟨hc.reached record, ?_⟩
  rintro ⟨id, hid, hleads⟩
  induction hleads with
  | refl => exact hc.entered id hid
  | tail _ hstep ih =>
    rcases hc.closed _ _ ih hstep with hknown | hmem
    · exact hknown
    · cases hmem

end Covers

/-- The same layout, or a fault on both sides. -/
def SameOutcome : Option LayoutResult → Option LayoutResult → Prop
  | some (.error _), some (.error _) => True
  | found, found' => found = found'

theorem SameOutcome.filter {found : Option LayoutResult} (h : SameOutcome found found') :
    SameOutcome (found.filter fun result => !isEmptyLayout result)
      (found'.filter fun result => !isEmptyLayout result) := by
  unfold SameOutcome at h
  split at h
  · trivial
  · subst h
    unfold SameOutcome
    split <;> trivial

theorem Meets.sameOutcome (h : Meets ast definition record result)
    (h' : Meets ast definition record result') : SameOutcome (some result) (some result') := by
  have hiff := h.isFaulty_iff.symm.trans h'.isFaulty_iff
  cases result with
  | error u =>
    obtain ⟨u', rfl⟩ := hiff.mp ⟨u, rfl⟩
    trivial
  | ok layout =>
    cases result' with
    | error u' =>
      obtain ⟨u, hu⟩ := hiff.mpr ⟨u', rfl⟩
      cases hu
    | ok layout' =>
      obtain ⟨-, fuel, hlayout⟩ := h
      obtain ⟨-, fuel', hlayout'⟩ := h'
      show some (Except.ok layout) = some (Except.ok layout')
      rw [plainLayout_unique hlayout hlayout']

theorem Covers.sameOutcome (hc : Covers ast definition ids known) (hc' : Covers ast definition ids' known')
    (hperm : ids.Perm ids') (record : DeclId) : SameOutcome (known.lookup record) (known'.lookup record) := by
  have hiff : IsKnown known record ↔ IsKnown known' record := by
    simp only [hc.isKnown_iff, hc'.isKnown_iff, hperm.mem_iff]
  cases hlookup : known.lookup record with
  | none =>
    cases hlookup' : known'.lookup record with
    | none => rfl
    | some result' =>
      obtain ⟨result, hresult⟩ := hiff.mpr ⟨result', hlookup'⟩
      rw [hlookup] at hresult
      cases hresult
  | some result =>
    obtain ⟨result', hlookup'⟩ := hiff.mp ⟨result, hlookup⟩
    rw [hlookup']
    exact (hc.meets _ _ hlookup).sameOutcome (hc'.meets _ _ hlookup')

def recordDefinitions (ast : Ast) : List DeclId :=
  ast.declsWithIds.filterMap fun (id, d) =>
    match d.kind with
    | .record r => if r.isDefinition then some id else none
    | _ => none

def vtablesInOrder? (ast : Ast) (definition : DeclId → DeclId) (order : List DeclId) : Option Layouts := do
  let known ← order.foldlM (fun known id => do
    return (← layOut? ast definition (ast.decls.size + 1) [] known id).2) []
  return known.filter fun (_, result) => !isEmptyLayout result

theorem vtablesInOrder_recordDefinitions :
    vtablesInOrder? ast definition (recordDefinitions ast) = vtables? ast definition := rfl

theorem mem_recordDefinitions :
    record ∈ recordDefinitions ast ↔ Symbols.IsRecordDefinition ast record := by
  simp only [recordDefinitions, List.mem_filterMap, Prod.exists, Ast.mem_declsWithIds]
  constructor
  · rintro ⟨id, d, hd, h⟩
    split at h
    · rename_i r hkind
      split at h
      · cases h
        exact ⟨d, r, hd, hkind, ‹_›⟩
      · cases h
    · cases h
  · rintro ⟨d, r, hd, hkind, hdef⟩
    exact ⟨record, d, hd, by simp [hkind, hdef]⟩

theorem exists_covers (hr : Resolved ast) {order : List DeclId}
    (horder : order.Perm (recordDefinitions ast)) :
    ∃ known ids, vtablesInOrder? ast (definitionIn ast) order =
        some (known.filter fun entry => !isEmptyLayout entry.2) ∧
      ids.Perm (recordDefinitions ast) ∧ Covers ast (definitionIn ast) ids known := by
  have hrange : ∀ id ∈ order, ast.inRange (.decl id) := by
    intro id hid
    obtain ⟨d, r, hd, -, -⟩ := mem_recordDefinitions.mp (horder.mem_iff.mp hid)
    exact Ast.inRange_of_decl? hd
  obtain ⟨known, hknown, -⟩ := hr.exists_layOutAll hrange (by simp : ∀ entry ∈ ([] : Layouts), _)
  obtain ⟨ids, hids, hcovers⟩ := (Covers.nil ast (definitionIn ast)).layOutAll hknown
  rw [List.append_nil] at hids
  refine ⟨known, ids, ?_, hids.trans horder, hcovers⟩
  exact congrArg
    (fun o => o.bind fun known => some (known.filter fun entry => !isEmptyLayout entry.2)) hknown

/-- **The vtables of a tree** in which no chain of typedefs is endless. A record definition is refused exactly
if its chain of first bases has a cycle or a fault, and otherwise has the layout of the plain recursion, in
whatever order records come. -/
theorem vtables_meet_chains {ast : Ast} (hvalid : ast.firstMissing? = none)
    (haliases : IsAcyclic ast.AliasStep) :
    ∃ table, vtables? ast (definitionIn ast) = some table ∧
      (∀ settings s, Symbols.build ast settings = .ok s → s.vtables = table) ∧
      (∀ record, Symbols.IsRecordDefinition ast record →
        ((∃ u, table.lookup record = some (.error u)) ↔ IsFaulty ast (definitionIn ast) record) ∧
        (¬ IsFaulty ast (definitionIn ast) record → ∃ fuel layout,
          plainLayout? ast (definitionIn ast) fuel record = some (.ok layout) ∧
          table.lookup record = if layout = [] then none else some (.ok layout))) ∧
      ∀ order, order.Perm (recordDefinitions ast) →
        ∃ table', vtablesInOrder? ast (definitionIn ast) order = some table' ∧
          ∀ record, SameOutcome (table.lookup record) (table'.lookup record) := by
  have hr : Resolved ast := ⟨Ast.firstMissing?_eq_none_iff.mp hvalid, haliases⟩
  obtain ⟨known, ids, htable, hids, hcovers⟩ := exists_covers hr (.refl _)
  have hlookup := lookup_filter hcovers.sound.once fun result => !isEmptyLayout result
  rw [vtablesInOrder_recordDefinitions] at htable
  refine ⟨_, htable, fun settings s hbuild => ?_, fun record hdef => ?_, fun order horder => ?_⟩
  · have hdescribes := Symbols.build_describes hbuild
    have hvtables := hdescribes.vtables
    rw [hdescribes.definition_eq, htable] at hvtables
    exact (Option.some.inj hvtables).symm
  · obtain ⟨result, hresult⟩ := hcovers.entered record (hids.mem_iff.mpr (mem_recordDefinitions.mpr hdef))
    rw [definitionIn_of_isRecordDefinition hdef] at hresult
    have hmeets := hcovers.meets _ _ hresult
    rw [hlookup, hresult, hmeets.isFaulty_iff]
    cases result with
    | error u => exact ⟨by simp [isEmptyLayout, Option.filter], fun hnone => absurd ⟨u, rfl⟩ hnone⟩
    | ok layout =>
      obtain ⟨-, fuel, hlayout⟩ := hmeets
      refine ⟨?_, fun _ => ⟨fuel, layout, hlayout, ?_⟩⟩
      · cases layout <;> simp [isEmptyLayout, Option.filter]
      · cases layout <;> simp [isEmptyLayout, Option.filter]
  · obtain ⟨known', ids', htable', hids', hcovers'⟩ := exists_covers hr horder
    refine ⟨_, htable', fun record => ?_⟩
    rw [hlookup, lookup_filter hcovers'.sound.once fun result => !isEmptyLayout result]
    exact (hcovers.sameOutcome hcovers' (hids.trans hids'.symm) record).filter

/-- The base of `Ring` is looked for without end, and no table is computed. -/
theorem endless_has_no_vtables :
    endless.firstMissing? = none ∧ Symbols.IsRecordDefinition endless ⟨1⟩ ∧
      vtables? endless (definitionIn endless) = none ∧ Symbols.build endless {} = .error .broken :=
  ⟨by decide, ⟨_, _, rfl, rfl, rfl⟩, rfl, rfl⟩

def rings : Ast where
  file := "rings.h"
  topLevel := [⟨0⟩, ⟨2⟩, ⟨3⟩, ⟨4⟩, ⟨6⟩]
  decls :=
    #[{ kind := .record { tag := .struct, bases := [{ type := ⟨2⟩ }], members := [⟨1⟩] }, name := "Ring" },
      { kind := .method { type := ⟨1⟩, isVirtual := true }, name := "spin", parent := some ⟨0⟩ },
      { kind := .record { tag := .struct, bases := [{ type := ⟨3⟩ }] }, name := "Loop" },
      { kind := .record { tag := .struct, bases := [{ type := ⟨3⟩ }] }, name := "Band" },
      { kind := .record { tag := .struct, members := [⟨5⟩] }, name := "Shape" },
      { kind := .method { type := ⟨1⟩, isVirtual := true }, name := "area", parent := some ⟨4⟩ },
      { kind := .record { tag := .struct, bases := [{ type := ⟨4⟩ }], members := [⟨7⟩, ⟨8⟩] },
        name := "Square" },
      { kind := .method { type := ⟨1⟩, isVirtual := true }, name := "side", parent := some ⟨6⟩ },
      { kind := .method { type := ⟨1⟩, isVirtual := true }, name := "area", parent := some ⟨6⟩ }]
  types :=
    #[.ofBuiltin .int,
      { kind := .function { result := ⟨0⟩, params := [] }, spelling := "int ()" },
      { kind := .record ⟨2⟩, spelling := "Loop" },
      { kind := .record ⟨0⟩, spelling := "Ring" },
      { kind := .record ⟨4⟩, spelling := "Shape" }]

theorem rings_meet_chains :
    rings.firstMissing? = none ∧ IsFaulty rings (definitionIn rings) ⟨3⟩ ∧
    (∃ fuel, plainLayout? rings (definitionIn rings) fuel ⟨6⟩ = some (.ok [⟨8⟩, ⟨7⟩])) ∧
    ∀ order, order.Perm (recordDefinitions rings) →
      ∃ table', vtablesInOrder? rings (definitionIn rings) order = some table' ∧
        (∃ u, table'.lookup ⟨3⟩ = some (.error u)) ∧ table'.lookup ⟨6⟩ = some (.ok [⟨8⟩, ⟨7⟩]) := by
  have hvalid : rings.firstMissing? = none := by decide
  have haliases : IsAcyclic rings.AliasStep := fun a hcycle => by
    obtain ⟨_, ⟨t, ht, halias⟩, -⟩ := TransGen.head'_iff.mp hcycle
    have hmem : t ∈ rings.types.toList := by simpa using Array.mem_of_getElem? ht
    have hnone : ∀ t ∈ rings.types.toList, ∀ d b, t.kind ≠ .typedef d b ∧
        ∀ name, t.kind ≠ .specialization name (some b) := by
      simp [rings, Ty.ofBuiltin]
    rcases halias with ⟨d, hkind⟩ | ⟨name, hkind⟩
    · exact (hnone t hmem d _).1 hkind
    · exact (hnone t hmem ⟨0⟩ _).2 name hkind
  obtain ⟨table, htable, -, hrecords, horders⟩ := vtables_meet_chains hvalid haliases
  obtain ⟨u, hband⟩ : ∃ u, table.lookup ⟨3⟩ = some (.error u) := by
    cases htable
    exact ⟨_, rfl⟩
  have hsquare : table.lookup ⟨6⟩ = some (.ok [⟨8⟩, ⟨7⟩]) := by
    cases htable
    rfl
  refine ⟨hvalid, ((hrecords ⟨3⟩ ⟨_, _, rfl, rfl, rfl⟩).1.mp ⟨u, hband⟩), ?_, fun order horder => ?_⟩
  · obtain ⟨hfaulty, hplain⟩ := hrecords ⟨6⟩ ⟨_, _, rfl, rfl, rfl⟩
    obtain ⟨fuel, layout, hlayout, hlookup⟩ := hplain fun h => by
      obtain ⟨u, hu⟩ := hfaulty.mpr h
      rw [hsquare] at hu
      cases hu
    rw [hsquare] at hlookup
    split at hlookup
    · cases hlookup
    · cases hlookup
      exact ⟨fuel, hlayout⟩
  · obtain ⟨table', htable', hsame⟩ := horders order horder
    refine ⟨table', htable', ?_, ?_⟩
    · have hband' := hsame ⟨3⟩
      rw [hband] at hband'
      unfold SameOutcome at hband'
      split at hband'
      · exact ⟨_, ‹_›⟩
      · exact ⟨u, hband'.symm⟩
    · have hsquare' := hsame ⟨6⟩
      rw [hsquare] at hsquare'
      exact hsquare'.symm

end Interop.Binding.Vtable

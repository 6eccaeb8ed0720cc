import Mathlib
import Interop.Batch.Output
import Interop.Proofs.Completion.Bindings
import Interop.Proofs.StoredTrees
import Interop.Proofs.TextLines

/-!
# Runs over several files

The units of a run do not know of each other, neither in the two passes over them
(`Generation.ofFiles_map`) nor in the pool of workers (`emitUnits_eq_mapM`). Files are named after the inputs,
and stems that are met again are numbered. The numbers do not know of stems that end in one, so two units
may share a file (`outputPaths_distinct_iff`).
-/

namespace Interop.Batch

/-! ## Results of units -/

/-- However many workers there are, and whether they can be started or not, the units are emitted as if
one after the other. -/
theorem emitUnits_eq_mapM (pool : Pool) (settings : Settings) (workers : Nat)
    (units : List (String × Native.Ast)) :
    emitUnits pool settings workers units =
      units.mapM fun unit => (emission settings unit.2).map (unit.1, ·) := by
  have hpool : ∀ emit : String × Native.Ast → Option (String × Binding.Result Managed.Bindings),
      (pool.run workers emit units).getD (units.map emit) = units.map emit := by
    intro emit
    cases hresults : pool.run workers emit units with
    | none => rfl
    | some results => exact pool.keepsOrder hresults
  simp only [emitUnits, hpool, ite_self, List.mapM_map]
  rfl

/-- What a run on one file finds out about it: nothing if its unit has endless references. -/
def entryOf (settings : Settings) (path : String) (text : Option String) : Option UnitResult :=
  match load text with
  | .error e => some (.error e)
  | .ok ast => (emission settings ast).map fun outcome => outcome.mapError (.emission path)

theorem nodup_eraseDups (paths : List String) : paths.eraseDups.Nodup := by
  induction hlength : paths.length using Nat.strong_induction_on generalizing paths with
  | _ n ih =>
    cases paths with
    | nil => simp
    | cons path rest =>
      have hshorter : (rest.filter fun p => !p == path).length < n := by
        have hle := List.length_filter_le (fun p => !p == path) rest
        simp only [List.length_cons] at hlength
        omega
      rw [List.eraseDups_cons, List.nodup_cons, List.mem_eraseDups]
      exact ⟨by simp, ih _ hshorter _ rfl⟩

namespace Generation

variable (result before : String → UnitResult) {done todo : List String}

theorem put_map {path : String} (hdone : done.Nodup) (h : ∀ p ∈ done, Path.same p path → p = path)
    (r : UnitResult) :
    put path r (done.map fun p => (p, before p)) =
      (if path ∈ done then done else done ++ [path]).map fun p => (p, if p = path then r else before p) := by
  induction done with
  | nil => simp [put]
  | cons first rest ih =>
    rw [List.forall_mem_cons] at h
    rw [List.nodup_cons] at hdone
    rw [List.map_cons, put]
    by_cases hsame : Path.same first path
    · obtain rfl := h.1 hsame
      have hrest : ∀ p ∈ rest, p ≠ first := fun p hp hne => hdone.1 (hne ▸ hp)
      simpa [hsame] using fun p hp hne => absurd hne (hrest p hp)
    · have hne : path ≠ first := by
        rintro rfl
        simp [Path.same] at hsame
      rw [if_neg (by simpa using hsame), ih hdone.2 h.2]
      by_cases hmem : path ∈ rest <;> simp [hmem, hne, Ne.symm hne]

/-- **What a pass does**: it replaces the entries of its paths where they stand, and puts the paths
that are new behind the others. -/
theorem putAll_map (hdone : done.Nodup) (h : ∀ p ∈ done ++ todo, ∀ q ∈ todo, Path.same p q → p = q) :
    putAll (todo.map fun p => (p, result p)) (done.map fun p => (p, before p)) =
      (done ++ (todo.filter (· ∉ done)).eraseDups).map fun p =>
        (p, if p ∈ todo then result p else before p) := by
  induction todo generalizing done before with
  | nil => simp [putAll]
  | cons path rest ih =>
    have hput := put_map before hdone (fun p hp => h p (by simp [hp]) path (.head _)) (result path)
    show putAll (rest.map _) (put path (result path) (done.map _)) = _
    rw [hput]
    have hentry : ∀ p, (p, if p ∈ rest then result p else if p = path then result path else before p) =
        (p, if p ∈ path :: rest then result p else before p) := by
      intro p
      by_cases hp : p = path
      · subst hp
        simp
      · simp [hp]
    refine (ih _ ?_ fun p hp q hq => ?_).trans ?_
    · split
      · exact hdone
      · exact List.nodup_append.mpr ⟨hdone, List.nodup_singleton _, by grind⟩
    · refine h p ?_ q (.tail _ hq)
      split at hp <;> simp at hp ⊢ <;> tauto
    · simp only [hentry]
      by_cases hmem : path ∈ done
      · simp [hmem]
      · simp [hmem, List.eraseDups_cons, List.filter_filter, Bool.and_comm, Bool.beq_eq_decide_eq]

/-- Whether the second pass is about a file. -/
def isLoaded (text : Option String) : Bool :=
  (load text).isOk

theorem outcomes_eq_mapM (pool : Pool) (settings : Settings) (workers : Nat)
    (content : String → Option String) (paths : List String) :
    (emitUnits pool settings workers (loaded (paths.map fun p => (p, content p)))).map
        (List.map fun unit => (unit.1, unit.2.mapError (.emission unit.1))) =
      (paths.filter fun p => isLoaded (content p)).mapM fun p =>
        (entryOf settings p (content p)).map (p, ·) := by
  rw [emitUnits_eq_mapM]
  induction paths with
  | nil => rfl
  | cons path rest ih =>
    rw [List.map_cons, loaded, List.filterMap_cons, ← loaded]
    cases hload : load (content path) with
    | error e => simpa [isLoaded, hload, Except.isOk, Except.toBool, Except.toOption] using ih
    | ok ast =>
      rw [List.filter_cons_of_pos (by simp [isLoaded, hload, Except.isOk, Except.toBool]), List.mapM_cons,
        ← ih]
      cases hemission : emission settings ast with
      | none => simp [entryOf, hload, hemission, Except.toOption]
      | some outcome =>
        simp only [Except.toOption, Option.map_some, List.mapM_cons, entryOf, hload, hemission]
        cases (loaded (rest.map fun p => (p, content p))).mapM fun unit =>
          (emission settings unit.2).map (unit.1, ·) <;> rfl

theorem slots_map (content : String → Option String) {paths : List String}
    (h : ∀ p ∈ paths, ∀ q ∈ paths, Path.same p q → p = q) :
    slots (paths.map fun p => (p, content p)) =
      paths.eraseDups.map fun p => (p, (load (content p)).map placeholder) := by
  have hpaths : ∀ p ∈ [] ++ paths, ∀ q ∈ paths, Path.same p q → p = q := h
  have hput := putAll_map (fun p => (load (content p)).map placeholder)
    (fun p => (load (content p)).map placeholder) List.nodup_nil hpaths
  simpa [slots, Function.comp_def] using hput

/-- **The second pass fills the places of the first one**: of what holds the place of a unit that is
loaded, nothing is left. -/
theorem ofFiles_map (pool : Pool) (settings : Settings) (jobs : Nat) (content : String → Option String)
    {paths : List String} (h : ∀ p ∈ paths, ∀ q ∈ paths, Path.same p q → p = q) :
    ofFiles pool settings jobs (paths.map fun p => (p, content p)) =
      (paths.eraseDups.mapM fun p => (entryOf settings p (content p)).map (p, ·)).map Generation.mk := by
  have hpasses : ofFiles pool settings jobs (paths.map fun p => (p, content p)) =
      ((paths.filter fun p => isLoaded (content p)).mapM fun p =>
        (entryOf settings p (content p)).map (p, ·)).map fun results =>
          ⟨putAll results (slots (paths.map fun p => (p, content p)))⟩ := by
    rw [← outcomes_eq_mapM pool settings (workers jobs), ofFiles]
    cases emitUnits pool settings (workers jobs) (loaded (paths.map fun p => (p, content p))) <;> rfl
  rw [hpasses, slots_map content h]
  by_cases hends : ∀ p ∈ paths, (entryOf settings p (content p)).isSome
  · let result := fun p => (entryOf settings p (content p)).getD (.error .unreadable)
    have hresult : ∀ p ∈ paths, (entryOf settings p (content p)).map (p, ·) = some (p, result p) := by
      intro p hp
      obtain ⟨r, hr⟩ := Option.isSome_iff_exists.mp (hends p hp)
      simp [result, hr]
    rw [mapM_eq_map fun p hp => hresult p (List.mem_of_mem_filter hp),
      mapM_eq_map fun p hp => hresult p (List.mem_eraseDups.mp hp), Option.map_some, Option.map_some]
    have hpaths : ∀ p ∈ paths.eraseDups ++ paths.filter fun p => isLoaded (content p),
        ∀ q ∈ paths.filter fun p => isLoaded (content p), Path.same p q → p = q := by
      simp
      grind
    have hput := putAll_map result (fun p => (load (content p)).map placeholder) (nodup_eraseDups paths) hpaths
    have hold : (paths.filter fun p => isLoaded (content p)).filter (· ∉ paths.eraseDups) = [] := by
      simp +contextual [List.filter_eq_nil_iff]
    rw [hput, hold, List.eraseDups_nil, List.append_nil]
    refine congrArg (fun units => some (Generation.mk units)) (List.map_congr_left fun p hp => ?_)
    rw [List.mem_eraseDups] at hp
    cases hload : load (content p) with
    | error e => simp [isLoaded, hload, Except.isOk, Except.toBool, result, entryOf, Except.map]
    | ok ast => simp [isLoaded, hload, Except.isOk, Except.toBool, hp]
  · obtain ⟨p, hp, hnone⟩ : ∃ p ∈ paths, entryOf settings p (content p) = none := by simpa using hends
    have hloaded : isLoaded (content p) = true := by
      cases hload : load (content p) with
      | error e => simp [entryOf, hload] at hnone
      | ok ast => simp [isLoaded, hload, Except.isOk, Except.toBool]
    have hmap : (entryOf settings p (content p)).map (p, ·) = none := by simp [hnone]
    rw [mapM_eq_none (List.mem_filter.mpr ⟨hp, hloaded⟩) hmap, mapM_eq_none (List.mem_eraseDups.mpr hp) hmap]
    rfl

end Generation

theorem run_mapM_read (w : Workspace) (paths : List String) :
    (paths.mapM Workspace.access.read).run w = (paths.map w.read?, w) := by
  induction paths with
  | nil => rfl
  | cons path rest ih =>
    have hread : (Workspace.access.read path).run w = (w.read? path, w) := rfl
    simp only [List.mapM_cons, StateT.run_bind, hread]
    show (fun r => (w.read? path :: r.1, r.2)) <$> (rest.mapM Workspace.access.read).run w = _
    rw [ih]
    rfl

/-- Only a unit with a cycle of references keeps a run from ending. -/
theorem exists_cycle_of_entryOf (h : entryOf settings path text = none) :
    ∃ ast, load text = .ok ast ∧ ¬ Binding.Acyclic ast := by
  unfold entryOf at h
  split at h
  · cases h
  · rename_i ast hload
    refine ⟨ast, hload, fun hacyclic => ?_⟩
    have hvalid : ast.firstMissing? = none := by
      cases text with
      | none => cases hload
      | some text =>
        simp only [load, Native.Ast.parse] at hload
        split at hload
        · cases hload
        · split at hload
          · cases hload
          · cases hload
            assumption
    have hcompletes := Binding.Intact.completes_bindingsOf
      ⟨Native.Ast.firstMissing?_eq_none_iff.mp hvalid, hacyclic⟩ settings
    rw [Option.map_eq_none_iff, emission] at h
    split at h
    · exact hcompletes ‹_›
    · cases h

theorem run_generate (pool : Pool) (w : Workspace) (settings : Settings) (jobs : Nat) {paths : List String}
    (h : ∀ p ∈ paths, ∀ q ∈ paths, Path.same p q → p = q) :
    (generate pool Workspace.access settings jobs paths).run w =
      ((paths.eraseDups.mapM fun p => (entryOf settings p (w.read? p)).map (p, ·)).map Generation.mk, w) := by
  have hfiles : paths.zip (paths.map w.read?) = paths.map fun p => (p, w.read? p) := by
    rw [List.zip_map_right]
    simp [List.zip, List.zipWith_self]
  simp only [generate, StateT.run_bind, run_mapM_read]
  rw [← Generation.ofFiles_map pool settings jobs w.read? h, ← hfiles]
  rfl

/-- **Units are independent and keep their order.** Whatever the pool and the number of jobs, the entry of
a path is that of a run on it alone, whatever becomes of the other files. The run ends unless one on a
single file does not, which takes a unit with a cycle of references. -/
theorem units_are_independent (w : Workspace) (settings : Settings) {paths : List String}
    (h : ∀ p ∈ paths, ∀ q ∈ paths, Path.same p q → p = q) :
    ∃ entry : String → Option UnitResult,
      (∀ p, entry p = none → ∃ ast, load (w.read? p) = .ok ast ∧ ¬ Binding.Acyclic ast) ∧
      ∀ (pool : Pool) (jobs : Nat),
        (∀ p, (generate pool Workspace.access settings jobs [p]).run w =
          ((entry p).map fun result => ⟨[(p, result)]⟩, w)) ∧
        (generate pool Workspace.access settings jobs paths).run w =
          ((paths.eraseDups.mapM fun p => (entry p).map (p, ·)).map Generation.mk, w) := by
  refine ⟨fun p => entryOf settings p (w.read? p), fun p => exists_cycle_of_entryOf, fun pool jobs =>
    ⟨fun p => ?_, run_generate pool w settings jobs h⟩⟩
  have hone : [p].eraseDups = [p] := by simp [List.eraseDups_cons]
  have hspelled : ∀ q ∈ [p], ∀ q' ∈ [p], Path.same q q' → q = q' := by simp
  rw [run_generate pool w settings jobs hspelled, hone, List.mapM_cons, List.mapM_nil]
  dsimp only
  cases entryOf settings p (w.read? p) <;> rfl

/-- Two files without a syntax tree, one of them in a folder. -/
def mixedFiles : Workspace where
  files := [(["b"], ""), (["x", "a"], "{}")]
  folders := [["x"]]

theorem mixedFiles_are_independent :
    ∃ entry : String → UnitResult, ∀ (pool : Pool) (jobs : Nat),
      (generate pool Workspace.access {} jobs ["b", "x/a", "b", "none"]).run mixedFiles =
        (some ⟨["b", "x/a", "none"].map fun p => (p, entry p)⟩, mixedFiles) ∧
      entry "none" = .error .unreadable := by
  have hdups : ["b", "x/a", "b", "none"].eraseDups = ["b", "x/a", "none"] := by decide
  obtain ⟨entry, hcycle, hruns⟩ := @units_are_independent mixedFiles {} ["b", "x/a", "b", "none"] (by decide)
  -- None of the files holds a tree, so that every entry is there.
  have hloads : ∀ p ∈ ["b", "x/a", "none"], (load (mixedFiles.read? p)).isOk = false := by
    simp only [List.forall_mem_cons]
    exact ⟨rfl, rfl, rfl, by simp⟩
  have hentry : ∀ p ∈ ["b", "x/a", "none"], (entry p).map (p, ·) =
      some (p, (entry p).getD (.error .unreadable)) := by
    intro p hp
    cases hresult : entry p with
    | some result => rfl
    | none =>
      obtain ⟨ast, hload, -⟩ := hcycle p hresult
      have hfails := hloads p hp
      rw [hload] at hfails
      cases hfails
  refine ⟨fun p => (entry p).getD (.error .unreadable), fun pool jobs => ⟨?_, ?_⟩⟩
  · rw [(hruns pool jobs).2, hdups, mapM_eq_map hentry]
    rfl
  · have halone := congrArg Prod.fst ((hruns pool 1).1 "none")
    have hnone : ((generate pool Workspace.access {} 1 ["none"]).run mixedFiles).1 =
      some ⟨[("none", .error .unreadable)]⟩ := rfl
    rw [hnone] at halone
    cases hresult : entry "none" with
    | none => simp [hresult]
    | some result =>
      rw [hresult] at halone
      cases halone
      simp [hresult]

/-- A unit with endless references keeps the run on it from ending, and every run that it is part of. -/
theorem endless_unit_has_no_entry :
    load (some Binding.endless.store) = .ok Binding.endless ∧ ∀ (pool : Pool) (jobs : Nat),
      (generate pool Workspace.access {} jobs ["none", "loop"]).run
          { files := [(["loop"], Binding.endless.store)] } =
        (none, { files := [(["loop"], Binding.endless.store)] }) := by
  have hload : load (some Binding.endless.store) = .ok Binding.endless := by
    rw [load, Native.Ast.parse_store (by decide) (by decide)]
    rfl
  refine ⟨hload, fun pool jobs => ?_⟩
  have hdups : ["none", "loop"].eraseDups = ["none", "loop"] := by decide
  rw [run_generate pool _ {} jobs (by decide), hdups]
  have hnone : entryOf {} "loop" (some Binding.endless.store) = none := by
    rw [entryOf, hload]
    rfl
  have hread : Workspace.read? { files := [(["loop"], Binding.endless.store)] } "loop" =
      some Binding.endless.store := rfl
  rw [mapM_eq_none (a := "loop") (by simp) (by rw [hread, hnone]; rfl)]
  rfl

/-! ## Names of files -/

/-- The name of the file for the unit that is the `n`th one with its stem. -/
def outputName (stem : String) (n : Nat) : String :=
  if n = 1 then stem ++ ".cs" else stem ++ "_" ++ n.repr ++ ".cs"

/-- Each stem with its number among those of the same name. -/
def occurrences (met : List String) : List String → List (String × Nat)
  | [] => []
  | stem :: rest => (stem, met.count stem + 1) :: occurrences (stem :: met) rest

theorem outputNames_eq_map (met stems : List String) :
    outputNames met stems = (occurrences met stems).map fun o => outputName o.1 o.2 := by
  induction stems generalizing met with
  | nil => rfl
  | cons stem rest ih => simp [outputNames, occurrences, outputName, ih]

theorem mem_occurrences :
    (stem, n) ∈ occurrences met stems ↔ met.count stem < n ∧ n ≤ met.count stem + stems.count stem := by
  induction stems generalizing met with
  | nil => simp [occurrences]
  | cons first rest ih =>
    rw [occurrences, List.mem_cons, ih, Prod.mk.injEq, List.count_cons, List.count_cons]
    by_cases h : first = stem
    · subst h
      simp
      omega
    · simp [h, Ne.symm h]

theorem nodup_occurrences (met stems : List String) : (occurrences met stems).Nodup := by
  induction stems generalizing met with
  | nil => exact .nil
  | cons stem rest ih =>
    refine List.nodup_cons.mpr ⟨fun h => ?_, ih _⟩
    have hcount := (mem_occurrences.mp h).1
    simp at hcount

theorem numbered_inj {m n : Nat} (h : s ++ "_" ++ m.repr = t ++ "_" ++ n.repr) : s = t ∧ m = n := by
  have hdigits : ∀ n : Nat, '_' ∉ n.repr.toList := by
    intro n hn
    simp at hn
  have hchars : s.toList ++ '_' :: m.repr.toList = t.toList ++ '_' :: n.repr.toList := by
    simpa using congrArg String.toList h
  have hlast : ∀ {cs ds : List Char}, cs ++ '_' :: m.repr.toList = ds ++ '_' :: n.repr.toList →
      cs = ds ∧ m.repr.toList = n.repr.toList := by
    intro cs ds heq
    rcases List.append_eq_append_iff.mp heq with ⟨_ | ⟨c, rest⟩, hds, hrest⟩ | ⟨_ | ⟨c, rest⟩, hcs, hrest⟩
    · simp_all
    · exact absurd (by simp [(List.cons.inj hrest).2]) (hdigits m)
    · simp_all
    · exact absurd (by simp [(List.cons.inj hrest).2]) (hdigits n)
  obtain ⟨hst, hmn⟩ := hlast hchars
  exact ⟨String.toList_inj.mp hst, Nat.repr_inj.mp (String.toList_inj.mp hmn)⟩

theorem outputName_inj (hm : 1 ≤ m) (hn : 1 ≤ n) :
    outputName s m = outputName t n ↔ (s = t ∧ m = n) ∨
      (m = 1 ∧ 2 ≤ n ∧ s = t ++ "_" ++ n.repr) ∨ (n = 1 ∧ 2 ≤ m ∧ t = s ++ "_" ++ m.repr) := by
  have hend : ∀ {a b : String}, a ++ ".cs" = b ++ ".cs" ↔ a = b := by simp [String.append_left_inj]
  unfold outputName
  by_cases hm1 : m = 1
  · by_cases hn1 : n = 1
    · simp [hm1, hn1]
    · have hn2 : 2 ≤ n := by omega
      simp [hm1, hn1, Ne.symm hn1, hend, hn2]
  · have hm2 : 2 ≤ m := by omega
    by_cases hn1 : n = 1
    · simp [hm1, hn1, hend, hm2, eq_comm]
    · rw [if_neg hm1, if_neg hn1, hend]
      constructor
      · exact fun h => .inl (numbered_inj h)
      · rintro (⟨rfl, rfl⟩ | ⟨h, -⟩ | ⟨h, -⟩)
        · rfl
        · exact absurd h hm1
        · exact absurd h hn1

/-! ## Paths of files -/

theorem mem_split_of_normal (h : .normal name ∈ Path.components path) : name ∈ Text.split '/' path := by
  have hpart : ∀ part, Path.componentOf part = some (.normal name) → part = name := by
    intro part hpart
    unfold Path.componentOf at hpart
    split_ifs at hpart <;> cases hpart
    rfl
  have hrest : ∀ {parts : List String}, .normal name ∈ parts.filterMap Path.componentOf → name ∈ parts := by
    intro parts hmem
    obtain ⟨part, hmem, hpart'⟩ := List.mem_filterMap.mp hmem
    exact hpart part hpart' ▸ hmem
  unfold Path.components at h
  split at h
  · cases h
  · rename_i first rest hsplit
    rw [hsplit]
    dsimp only at h
    split_ifs at h <;> simp at h
    · exact .tail _ (hrest (by simpa using h))
    · exact .tail _ (hrest (by simpa using h))
    · rcases h with h | h
      · exact hpart first h ▸ .head _
      · exact .tail _ (hrest (by simpa using h))

theorem mem_of_stripLead (h : Text.stripLead? lead cs = some rest) : rest ⊆ cs := by
  induction lead, cs using Text.stripLead?.induct with
  | case1 cs => exact (Option.some.inj h) ▸ List.Subset.refl _
  | case2 => cases h
  | case3 _ lead cs ih =>
    rw [Text.stripLead?, if_pos rfl] at h
    exact List.Subset.trans (ih h) (List.subset_cons_self _ _)
  | case4 p lead c cs hne => simp [Text.stripLead?, hne] at h

theorem slash_not_mem_fileName (h : Path.fileName? path = some name) : '/' ∉ name.toList := by
  unfold Path.fileName? at h
  split at h
  · rename_i hlast
    obtain rfl := Option.some.inj h
    obtain ⟨part, hpart, rfl⟩ := List.mem_map.mp (mem_split_of_normal (List.mem_of_getLast? hlast))
    simpa using Managed.not_mem_of_mem_splitChars hpart
  · cases h

theorem stemOfName_subset (name : String) : (Path.stemOfName name).toList ⊆ name.toList := by
  simp only [Path.stemOfName]
  split
  · exact List.Subset.refl _
  · rename_i before hbefore
    split
    · exact List.Subset.refl _
    · intro c hc
      have hmem : c ∈ name.toList.reverse.dropWhile (· ≠ '.') := by
        rw [hbefore]
        exact List.mem_cons_of_mem _ (by simpa using hc)
      simpa using (List.dropWhile_sublist _).subset hmem

theorem slash_not_mem_outputStem (path : String) : '/' ∉ (outputStem path).toList := by
  have hstem : '/' ∉ ((Path.stem? path).getD "unit").toList := by
    cases hname : Path.fileName? path with
    | none => simp [Path.stem?, hname]
    | some name =>
      simp only [Path.stem?, hname, Option.map_some, Option.getD_some]
      exact fun h => slash_not_mem_fileName hname (stemOfName_subset name h)
  simp only [outputStem, Text.dropTail?]
  generalize (Path.stem? path).getD "unit" = stem at hstem ⊢
  generalize ".ast".toList.reverse = tail
  cases hstrip : Text.stripLead? tail stem.toList.reverse with
  | none => simpa using hstem
  | some rest =>
    simp only [Option.map_some, Option.getD_some, String.toList_ofList, List.mem_reverse]
    exact fun h => hstem (by simpa using mem_of_stripLead hstrip h)

theorem join_eq_of_not_mem (folder : String) {name : String} (h : '/' ∉ name.toList) :
    Path.join folder name =
      (if folder = "" ∨ Text.endsWith (· = '/') folder then folder else folder ++ "/") ++ name := by
  have hstart : Text.startsWith (· = '/') name = false := by
    unfold Text.startsWith
    split
    · rename_i c cs hcs
      simp only [hcs, List.mem_cons, not_or] at h
      simpa [eq_comm] using h.1
    · rfl
  by_cases hfolder : folder = "" ∨ Text.endsWith (· = '/') folder = true <;>
    simp [Path.join, hstart, hfolder]

/-- **The files of a run are distinct** exactly if no input is called like a numbered one. -/
theorem outputPaths_distinct_iff (folder : String) (paths : List String) :
    (outputPaths folder paths).Nodup ↔
      ∀ stem n, 2 ≤ n → n ≤ (paths.map outputStem).count stem →
        stem ++ "_" ++ n.repr ∉ paths.map outputStem := by
  have hslash : ∀ name ∈ outputNames [] (paths.map outputStem), '/' ∉ name.toList := by
    intro name hname
    rw [outputNames_eq_map] at hname
    obtain ⟨⟨stem, n⟩, hmem, rfl⟩ := List.mem_map.mp hname
    obtain ⟨hpos, hle⟩ := mem_occurrences.mp hmem
    simp only [List.count_nil, Nat.zero_add] at hpos hle
    obtain ⟨path, -, rfl⟩ := List.mem_map.mp (List.count_pos_iff.mp (Nat.lt_of_lt_of_le hpos hle))
    unfold outputName
    have hdigits : '/' ∉ Nat.toDigits 10 n := fun h =>
      absurd (Nat.isDigit_of_mem_toDigits (by decide) (by decide) h) (by decide)
    split <;> simp [slash_not_mem_outputStem path, hdigits]
  have hjoin : (outputPaths folder paths).Nodup ↔ (outputNames [] (paths.map outputStem)).Nodup := by
    refine ⟨.of_map _, .map_on fun name hname other hother h => ?_⟩
    rw [join_eq_of_not_mem _ (hslash name hname), join_eq_of_not_mem _ (hslash other hother)] at h
    simpa using h
  rw [hjoin, outputNames_eq_map, List.nodup_map_iff_inj_on (nodup_occurrences _ _)]
  constructor
  · intro h stem n hn hcount hmem
    have hfirst : (stem ++ "_" ++ n.repr, 1) ∈ occurrences [] (paths.map outputStem) :=
      mem_occurrences.mpr ⟨by simp, by simpa [List.one_le_count_iff] using hmem⟩
    have hnumbered : (stem, n) ∈ occurrences [] (paths.map outputStem) :=
      mem_occurrences.mpr ⟨by simp; omega, by simpa using hcount⟩
    have heq := h _ hfirst _ hnumbered
      ((outputName_inj (Nat.le_refl 1) (by omega)).mpr (.inr (.inl ⟨rfl, hn, rfl⟩)))
    have hone : 1 = n := congrArg Prod.snd heq
    omega
  · rintro h ⟨s, m⟩ hs ⟨t, n⟩ ht heq
    obtain ⟨hm, hms⟩ := mem_occurrences.mp hs
    obtain ⟨hn, hnt⟩ := mem_occurrences.mp ht
    simp only [List.count_nil, Nat.zero_add] at hm hms hn hnt
    rcases (outputName_inj hm hn).mp heq with ⟨rfl, rfl⟩ | ⟨rfl, hn, rfl⟩ | ⟨rfl, hm, rfl⟩
    · rfl
    · exact absurd (List.one_le_count_iff.mp hms) (h t n hn hnt)
    · exact absurd (List.one_le_count_iff.mp hnt) (h s m hm hms)

/-- The second `a` and the first `a_2` are written to the same file. -/
theorem numbered_input_shares_file :
    ["x/a.json", "y/a.json", "a_2.json"].Nodup ∧
      outputPaths "out" ["x/a.json", "y/a.json", "a_2.json"] = ["out/a.cs", "out/a_2.cs", "out/a_2.cs"] := by
  decide

end Interop.Batch

import Interop.Native.Builder
import Interop.Proofs.Completion.References

/-!
# Built trees are valid

`Needs` says of a step of construction that, if the references it is handed lie inside their arenas, so do
those it hands on and all references of the tree, and no arena becomes smaller. What one step hands on may
be used by the next (`Needs.bind`). A reference that is read in the tree needs no thought, since the tree
was valid before.
-/

namespace Interop.Native

namespace Ast

variable {ast : Ast}

structure Grows (ast later : Ast) : Prop where
  decls : ast.decls.size ≤ later.decls.size
  stmts : ast.stmts.size ≤ later.stmts.size
  exprs : ast.exprs.size ≤ later.exprs.size
  types : ast.types.size ≤ later.types.size

theorem Grows.refl (ast : Ast) : ast.Grows ast :=
  ⟨Nat.le_refl _, Nat.le_refl _, Nat.le_refl _, Nat.le_refl _⟩

theorem Grows.trans (h : ast.Grows later) (hlater : later.Grows last) : ast.Grows last :=
  ⟨h.decls.trans hlater.decls, h.stmts.trans hlater.stmts, h.exprs.trans hlater.exprs,
    h.types.trans hlater.types⟩

theorem Grows.inRange (h : ast.Grows later) (hr : ast.inRange r) : later.inRange r := by
  obtain ⟨hdecls, hstmts, hexprs, htypes⟩ := h
  cases r <;> simp only [Ast.inRange, decide_eq_true_eq] at hr ⊢ <;> omega

end Ast

namespace Builder

/-- The tree is valid, and so is every type that is kept for later. -/
structure Sound (b : Builder) : Prop where
  valid : b.ast.Valid
  builtins : ∀ entry ∈ b.builtins, b.ast.inRange (.type entry.2)
  named : ∀ entry ∈ b.named, b.ast.inRange (.type entry.2)

def Call.refs : Call → List Ref
  | .moveTo _ _ | .builtin _ | .intLit _ | .floatLit _ | .boolLit _ | .nullPtr | .stringLit _ => []
  | .addType t => t.kind.refs
  | .constOf t | .pointer t | .constPointer t | .lvalueRef t | .constRef t | .rvalueRef t | .array t _
  | .incompleteArray t | .sizeOf t => [.type t]
  | .functionType proto => (TypeKind.function proto).refs
  | .namedType d | .declRef d | .load d | .markDeprecated d _ | .thisPointer d _ => [.decl d]
  | .addDecl parent _ kind => parent.toList.map .decl ++ kind.refs
  | .detachedDecl _ kind => kind.refs
  | .setDecl id d => .decl id :: d.refs
  | .addBase record base => [.decl record, .decl base]
  | .function _ parent _ result params body =>
    parent.toList.map .decl ++ .type result :: params.map .decl ++ body.toList.map .stmt
  | .method _ record _ result params body =>
    .decl record :: .type result :: params.map .decl ++ body.toList.map .stmt
  | .setBody id body => [.decl id, .stmt body]
  | .stmt kind => kind.refs
  | .expr kind type => .type type :: kind.refs
  | .typeOf e | .rvalue e | .paren e | .unary _ e => [.expr e]
  | .binary _ lhs rhs | .subscript lhs rhs => [.expr lhs, .expr rhs]
  | .conditional cond thenExpr elseExpr => [.expr cond, .expr thenExpr, .expr elseExpr]
  | .call callee args => .decl callee :: args.map .expr
  | .memberCall base callee _ args => .expr base :: .decl callee :: args.map .expr
  | .member base field _ => [.expr base, .decl field]

/-- The step is safe if `refs` lie inside their arenas, and hands on `given`. -/
def Needs (refs : List Ref) (step : Build α) (given : α → List Ref) : Prop :=
  ∀ b a b', b.Sound → (∀ r ∈ refs, b.ast.inRange r) → step b = some (a, b') →
    b'.Sound ∧ b.ast.Grows b'.ast ∧ ∀ r ∈ given a, b'.ast.inRange r

attribute [local simp] Call.refs

variable {refs : List Ref} {given : α → List Ref}

theorem Needs.bind {step : Build α} {next : α → Build β} {later : β → List Ref} (h : Needs refs step given)
    (hnext : ∀ a, Needs (given a ++ refs) (next a) later) : Needs refs (step >>= next) later := by
  intro b c b'' hb hrefs hrun
  obtain ⟨⟨a, b'⟩, hstep, hrun⟩ := Option.bind_eq_some_iff.mp hrun
  obtain ⟨hb', hgrows, hgiven⟩ := h b a b' hb hrefs hstep
  have hall : ∀ r ∈ given a ++ refs, b'.ast.inRange r := by
    intro r hr
    rcases List.mem_append.mp hr with hr | hr
    · exact hgiven r hr
    · exact hgrows.inRange (hrefs r hr)
  obtain ⟨hb'', hgrows', hlater⟩ := hnext a b' c b'' hb' hall hrun
  exact ⟨hb'', hgrows.trans hgrows', hlater⟩

theorem needs_pure (h : given a ⊆ refs) : Needs refs (pure a) given := by
  intro b a' b' hb hrefs hrun
  cases hrun
  exact ⟨hb, .refl _, fun r hr => hrefs r (h hr)⟩

theorem Needs.map {step : Build α} {f : α → β} {later : β → List Ref} (h : Needs refs step given)
    (hf : ∀ a, later (f a) ⊆ given a) : Needs refs (do return f (← step)) later :=
  h.bind fun a => needs_pure fun _ hr => List.mem_append_left _ (hf a hr)

/-! ## Reading and changing the tree -/

variable {type : TypeId} {expr : ExprId} {id : DeclId}
variable {step : Build α} {parent : Option DeclId} {name : String} {params : List DeclId}
  {find : Builder → Option α}

theorem needs_lookup (h : ∀ b a, b.Sound → find b = some a → ∀ r ∈ given a, b.ast.inRange r) :
    Needs refs (get >>= fun b => liftM (find b) : Build α) given := by
  intro b a b' hb _ hrun
  obtain ⟨found, hfound, hrun⟩ := Option.bind_eq_some_iff.mp
    (show (find b).bind (fun found => some (found, b)) = some (a, b') from hrun)
  cases hrun
  exact ⟨hb, .refl _, h b a hb hfound⟩

theorem needs_type : Needs refs (Builder.type type) (·.kind.refs) :=
  needs_lookup fun _ _ hb ht _ hr => hb.valid.ofType ht hr

theorem needs_type_self : Needs refs (Builder.type type) (fun t => .type type :: t.kind.refs) :=
  needs_lookup fun _ t hb ht r hr => by
    rcases List.mem_cons.mp hr with rfl | hr
    · exact Ast.isSome_type?.mp (by simp [ht])
    · exact hb.valid.ofType ht hr

theorem needs_decl : Needs refs (decl id) Decl.refs :=
  needs_lookup fun _ _ hb hd _ hr => hb.valid.ofDeclRefs hd hr

theorem needs_typeOf : Needs refs (typeOf expr) (fun t => [.type t]) := by
  intro b t b' hb _ hrun
  obtain ⟨_, hfound, hrun⟩ := Option.bind_eq_some_iff.mp hrun
  obtain ⟨e, he, hfound⟩ := Option.bind_eq_some_iff.mp hfound
  cases hfound
  cases hrun
  exact ⟨hb, .refl _, by simpa using hb.valid.typeOfExpr he⟩

theorem needs_declType : Needs refs (declType id) (·.toList.map .type) := by
  refine needs_lookup fun b t hb ht r hr => ?_
  simp only [Ast.declType?, bind, Option.bind_eq_some_iff] at ht
  obtain ⟨d, hd, ht⟩ := ht
  refine hb.valid.ofDecl hd ?_
  split at ht <;> cases ht <;> simp_all

theorem needs_canonicalKind : Needs refs (canonicalKind type) TypeKind.refs :=
  needs_lookup fun _ _ hb hkind _ hr => hb.valid.ofCanonicalKind hkind hr

theorem Sound.extend {b b' : Builder} (hb : b.Sound) (hgrows : b.ast.Grows b'.ast)
    (hrefs : ∀ r, b'.ast.Holds r → b.ast.Holds r ∨ b'.ast.inRange r) (hbuiltins : b'.builtins = b.builtins)
    (hnamed : b'.named = b.named) : b'.Sound where
  valid := Ast.valid_iff.mpr fun r hr =>
    (hrefs r hr).elim (fun hr => hgrows.inRange (Ast.valid_iff.mp hb.valid r hr)) id
  builtins entry hentry := hgrows.inRange (hb.builtins entry (hbuiltins ▸ hentry))
  named entry hentry := hgrows.inRange (hb.named entry (hnamed ▸ hentry))

theorem needs_change {f : Builder → Ast} {result : Builder → α}
    (hstep : ∀ b, step b = some (result b, { b with ast := f b }))
    (hgrows : ∀ b : Builder, b.ast.Grows (f b))
    (hrefs : ∀ b, (∀ r ∈ refs, (f b).inRange r) → ∀ r, (f b).Holds r → b.ast.Holds r ∨ (f b).inRange r)
    (hgiven : ∀ b, ∀ r ∈ given (result b), (f b).inRange r) : Needs refs step given := by
  intro b a b' hb hin hrun
  rw [hstep b] at hrun
  cases hrun
  have hin' : ∀ r ∈ refs, (f b).inRange r := fun r hr => (hgrows b).inRange (hin r hr)
  exact ⟨hb.extend (hgrows b) (hrefs b hin') rfl rfl, hgrows b, hgiven b⟩

theorem needs_addType {t : Ty} (h : t.kind.refs ⊆ refs) : Needs refs (addType t) (fun t => [.type t]) := by
  refine needs_change (fun b => rfl) (fun b => ?_) (fun b hin r hr => ?_) (fun b r hr => ?_)
  · constructor <;> simp
  · simp only [Ast.Holds, Array.mem_push] at hr ⊢
    grind
  · simp_all [Ast.inRange]

theorem needs_detachedDecl {kind : DeclKind} (h : kind.refs ⊆ refs) :
    Needs refs (detachedDecl name kind) (fun d => [.decl d]) := by
  refine needs_change (fun b => rfl) (fun b => ?_) (fun b hin r hr => ?_) (fun b r hr => ?_)
  · constructor <;> simp
  · simp only [Ast.Holds, Array.mem_push] at hr ⊢
    have hnew : ∀ l, Decl.refs { kind, name, location := l } = kind.refs := fun l => rfl
    grind
  · simp_all [Ast.inRange]

theorem needs_stmt {kind : StmtKind} (h : kind.refs ⊆ refs) :
    Needs refs (stmt kind) (fun s => [.stmt s]) := by
  refine needs_change (fun b => rfl) (fun b => ?_) (fun b hin r hr => ?_) (fun b r hr => ?_)
  · constructor <;> simp
  · simp only [Ast.Holds, Array.mem_push] at hr ⊢
    grind
  · simp_all [Ast.inRange]

theorem needs_expr {kind : ExprKind} (h : .type type :: kind.refs ⊆ refs) :
    Needs refs (Builder.expr kind type) (fun e => [.expr e]) := by
  refine needs_change (fun b => rfl) (fun b => ?_) (fun b hin r hr => ?_) (fun b r hr => ?_)
  · constructor <;> simp
  · simp only [Ast.Holds, Array.mem_push] at hr ⊢
    grind
  · simp_all [Ast.inRange]

theorem needs_setDecl {d : Decl} (h : d.refs ⊆ refs) : Needs refs (setDecl id d) (fun _ => []) := by
  refine needs_decl.bind fun _ => ?_
  refine needs_change (fun b => rfl) (fun b => ?_) (fun b hin r hr => ?_) (fun b r hr => ?_)
  · constructor <;> simp
  · simp only [Ast.Holds] at hr ⊢
    grind [Array.mem_or_eq_of_mem_setIfInBounds]
  · cases hr

theorem needs_modifyDecl (h : ∀ d, (f d).refs ⊆ d.refs ++ refs) :
    Needs refs (modifyDecl id f) (fun _ => []) :=
  needs_decl.bind fun d => needs_setDecl (h d)

/-! ## Types -/

theorem needs_remember (hast : ∀ b, (f b).ast = b.ast)
    (hbuiltins : ∀ b, ∀ entry ∈ (f b).builtins, entry ∈ b.builtins ∨ .type entry.2 ∈ refs)
    (hnamed : ∀ b, ∀ entry ∈ (f b).named, entry ∈ b.named ∨ .type entry.2 ∈ refs) :
    Needs refs (modify f) (fun _ => []) := by
  intro b a b' hb hin hrun
  cases hrun
  have hgrows : b.ast.Grows (f b).ast := hast b ▸ .refl _
  refine ⟨⟨hast b ▸ hb.valid, fun entry hentry => hgrows.inRange ?_,
    fun entry hentry => hgrows.inRange ?_⟩, hgrows, by simp⟩
  · exact (hbuiltins b entry hentry).elim (hb.builtins entry) (hin _)
  · exact (hnamed b entry hentry).elim (hb.named entry) (hin _)

theorem needs_once (find : Builder → Option α) (make : Build α)
    (hfound : ∀ b a, find b = some a → step b = some (a, b))
    (hmissing : ∀ b, find b = none → step b = make b)
    (h : ∀ b a, b.Sound → find b = some a → ∀ r ∈ given a, b.ast.inRange r) (hmake : Needs refs make given) :
    Needs refs step given := by
  intro b a b' hb hin hrun
  cases hfind : find b with
  | some found =>
    rw [hfound b found hfind] at hrun
    cases hrun
    exact ⟨hb, .refl _, h b a hb hfind⟩
  | none => exact hmake b a b' hb hin (by rwa [hmissing b hfind] at hrun)

theorem get_bind {f : Builder → Build α} (b : Builder) : (get >>= f : Build α) b = f b b := rfl

theorem needs_builtin {kind : Builtin} : Needs refs (builtin kind) (fun t => [.type t]) := by
  refine needs_once (fun b => b.builtins.lookup kind)
    (do
      let id ← addType (.ofBuiltin kind)
      modify fun b => { b with builtins := (kind, id) :: b.builtins }
      return id)
    (fun b t hfind => ?_) (fun b hfind => ?_)
    (fun b t hb ht => by simpa using hb.builtins _ (mem_of_lookup ht)) ?_
  · rw [builtin, get_bind, hfind]
    rfl
  · rw [builtin, get_bind, hfind]
  refine (needs_addType (by simp [Ty.ofBuiltin])).bind fun t => ?_
  refine Needs.bind (needs_remember (fun _ => ?_) (fun _ => ?_) (fun _ => ?_)) fun _ => needs_pure (by simp)
  · rfl
  · grind
  · grind

theorem refs_namedKind (id : DeclId) (kind : DeclKind) :
    (namedKind id kind).refs ⊆ .decl id :: kind.refs := by
  cases kind <;> simp [namedKind]

theorem needs_namedType (h : .decl id ∈ refs) : Needs refs (namedType id) (fun t => [.type t]) := by
  refine needs_once (fun b => b.named.lookup id)
    (do
      let d ← decl id
      let t ← addType { kind := namedKind id d.kind, spelling := namedSpelling d }
      modify fun b => { b with named := (id, t) :: b.named }
      return t)
    (fun b t hfind => ?_) (fun b hfind => ?_)
    (fun b t hb ht => by simpa using hb.named _ (mem_of_lookup ht)) ?_
  · rw [namedType, get_bind, hfind]
    rfl
  · rw [namedType, get_bind, hfind]
  refine needs_decl.bind fun d => (needs_addType ?_).bind fun t => ?_
  · have hkind := refs_namedKind id d.kind
    simp only [Decl.refs]
    grind
  refine Needs.bind (needs_remember (fun _ => ?_) (fun _ => ?_) (fun _ => ?_)) fun _ => needs_pure (by simp)
  · rfl
  · grind
  · grind

theorem needs_constOf : Needs refs (constOf type) (fun t => [.type t]) :=
  needs_type.bind fun _ => needs_addType (by simp)

theorem needs_pointer (h : .type type ∈ refs) : Needs refs (pointer type) (fun t => [.type t]) :=
  needs_type.bind fun _ => needs_addType (by simp [h])

theorem needs_lvalueRef (h : .type type ∈ refs) : Needs refs (lvalueRef type) (fun t => [.type t]) :=
  needs_type.bind fun _ => needs_addType (by simp [h])

theorem needs_array (h : .type type ∈ refs) : Needs refs (array type size) (fun t => [.type t]) :=
  needs_type.bind fun _ => needs_addType (by simp [h])

theorem needs_mapM {f : β → Build α} {items : List β} (h : ∀ x ∈ items, ∀ refs, Needs refs (f x) given) :
    Needs refs (items.mapM f) (·.flatMap given) := by
  induction items generalizing refs with
  | nil => exact needs_pure (by simp)
  | cons x rest ih =>
    rw [List.mapM_cons]
    refine (h x (List.mem_cons_self ..) _).bind fun a => ?_
    refine (ih fun x hx => h x (List.mem_cons_of_mem _ hx)).bind fun as => needs_pure ?_
    intro r hr
    simp only [List.flatMap_cons, List.mem_append] at hr ⊢
    tauto

theorem needs_functionType {proto : Prototype} (h : (TypeKind.function proto).refs ⊆ refs) :
    Needs refs (functionType proto) (fun t => [.type t]) := by
  have hspelling : ∀ p refs, Needs refs (do return (← Builder.type p).spelling) (fun _ => []) :=
    fun _ _ => needs_type.map (by simp)
  refine (needs_mapM fun p _ => hspelling p).bind fun _ => ?_
  refine needs_type.bind fun _ => needs_addType ?_
  exact fun r hr => by simp [h hr]

/-! ## Declarations -/

theorem refs_listUnder (child : DeclId) (kind : DeclKind) :
    (listUnder child kind).refs ⊆ .decl child :: kind.refs := by
  cases kind <;> simp [listUnder]

theorem refs_withBody (body : StmtId) (kind : DeclKind) :
    (withBody body kind).refs ⊆ .stmt body :: kind.refs := by
  cases kind <;> simp [withBody] <;> grind

theorem needs_attach (h : .decl id :: parent.toList.map .decl ⊆ refs) :
    Needs refs (attach id parent) (fun _ => []) := by
  cases parent with
  | none =>
    refine needs_change (fun b => rfl) (fun b => ?_) (fun b hin r hr => ?_) (fun b r hr => ?_)
    · constructor <;> simp
    · simp only [Ast.Holds, List.mem_append] at hr ⊢
      grind
    · cases hr
  | some parent =>
    refine (needs_modifyDecl fun d => ?_).bind fun _ => needs_modifyDecl fun d => ?_
    · simp only [Decl.refs]
      grind
    · have hkind := refs_listUnder id d.kind
      simp only [Decl.refs]
      grind

theorem needs_addDecl {kind : DeclKind} (h : parent.toList.map .decl ++ kind.refs ⊆ refs) :
    Needs refs (addDecl parent name kind) (fun d => [.decl d]) := by
  refine (needs_detachedDecl (by grind)).bind fun id => (needs_attach (by grind)).bind fun _ => ?_
  exact needs_pure (by simp)

theorem needs_addBase (h : .decl base ∈ refs) : Needs refs (addBase record base) (fun _ => []) := by
  refine (needs_namedType h).bind fun t => needs_modifyDecl fun d => ?_
  split
  · rename_i r hkind
    simp [Decl.refs, hkind]
    grind
  · simp

theorem needs_paramTypes : Needs refs (paramTypes params) (·.map .type) :=
  (needs_mapM fun _ _ _ => needs_declType).map fun types r hr => by simpa using hr

theorem needs_adopt (h : .decl id ∈ refs) : Needs refs (adopt id children) (fun _ => []) := by
  induction children with
  | nil => exact needs_pure (by simp)
  | cons child rest ih =>
    show Needs refs (modifyDecl child _ >>= fun _ => adopt id rest) _
    refine (needs_modifyDecl fun d => ?_).bind fun _ => ih
    simp only [Decl.refs]
    grind

theorem needs_callable {result : TypeId} {convention : Convention} {kind : TypeId → DeclKind}
    (h : parent.toList.map .decl ++ [.type result] ⊆ refs)
    (hkind : ∀ type, (kind type).refs ⊆ .type type :: refs) :
    Needs refs (do
      let types ← paramTypes params
      let type ← functionType { result, params := types, convention := some convention }
      let id ← addDecl parent name (kind type)
      adopt id params
      return id) (fun d => [.decl d]) := by
  refine needs_paramTypes.bind fun types => (needs_functionType ?_).bind fun type => ?_
  · simp only [TypeKind.refs]
    grind
  have hall := hkind type
  refine (needs_addDecl (by grind)).bind fun id => ?_
  exact (needs_adopt (by simp)).bind fun _ => needs_pure (by simp)

/-! ## Expressions -/

theorem needs_useType : Needs refs (useType id) (fun t => [.type t]) := by
  refine needs_decl.bind fun d => ?_
  split
  · rename_i hparent
    exact needs_namedType (by simp [Decl.refs, hparent])
  · exact needs_builtin
  · refine needs_declType.bind fun t => ?_
    cases t with
    | none => exact needs_builtin
    | some t =>
      refine needs_type.bind fun target => ?_
      split
      · rename_i hkind
        exact needs_pure (by simp [hkind])
      · rename_i hkind
        exact needs_pure (by simp [hkind])
      · exact needs_pure (by simp)

theorem needs_unaryType (h : .type type ∈ refs) : Needs refs (unaryType op type) (fun t => [.type t]) := by
  unfold unaryType
  split
  · exact needs_pointer h
  · refine needs_canonicalKind.bind fun kind => ?_
    split
    · exact needs_pure (by simp)
    · exact needs_pure (by simp [h])
  · exact needs_builtin
  · exact needs_pure (by simpa using h)

theorem needs_typed {step : Build TypeId} {kind : ExprKind} (h : Needs refs step (fun t => [.type t]))
    (hkind : kind.refs ⊆ refs) : Needs refs (do Builder.expr kind (← step)) (fun e => [.expr e]) :=
  h.bind fun type => needs_expr (by grind)

theorem needs_declRef (h : .decl id ∈ refs) : Needs refs (declRef id) (fun e => [.expr e]) :=
  needs_typed needs_useType (by simpa using h)

theorem needs_calleeTypes : Needs refs (calleeTypes id) (fun t => [.type t.1, .type t.2]) := by
  refine needs_declType.bind fun t => needs_type_self.bind fun target => ?_
  split
  · exact needs_pure (by simp [*])
  · exact needs_pure (by simp)

/-! ## Calls -/

theorem needs_run (c : Call) : Needs c.refs c.run (·.toList) := by
  have hquiet : ∀ {refs : List Ref} {step : Build Unit}, Needs refs step (fun _ => []) →
      Needs refs (quiet step) (·.toList) := fun h => h.bind fun _ => needs_pure (by simp)
  have htype : ∀ {refs : List Ref} {step : Build TypeId}, Needs refs step (fun t => [.type t]) →
      Needs refs (giveType step) (·.toList) := fun h => h.map (by simp)
  have hdecl : ∀ {refs : List Ref} {step : Build DeclId}, Needs refs step (fun t => [.decl t]) →
      Needs refs (giveDecl step) (·.toList) := fun h => h.map (by simp)
  have hexpr : ∀ {refs : List Ref} {step : Build ExprId}, Needs refs step (fun t => [.expr t]) →
      Needs refs (giveExpr step) (·.toList) := fun h => h.map (by simp)
  cases c with
  | moveTo line column =>
    exact hquiet (needs_remember (fun _ => rfl) (fun _ _ => .inl) (fun _ _ => .inl))
  | addType t => exact htype (needs_addType (List.Subset.refl _))
  | builtin kind => exact htype needs_builtin
  | constOf t => exact htype needs_constOf
  | pointer t => exact htype (needs_pointer (by simp))
  | constPointer t => exact htype (needs_constOf.bind fun _ => needs_pointer (by simp))
  | lvalueRef t => exact htype (needs_lvalueRef (by simp))
  | constRef t => exact htype (needs_constOf.bind fun _ => needs_lvalueRef (by simp))
  | rvalueRef t =>
    exact htype (needs_type.bind fun _ => needs_addType (by simp))
  | array t size => exact htype (needs_array (by simp))
  | incompleteArray t =>
    exact htype (needs_type.bind fun _ => needs_addType (by simp))
  | functionType proto => exact htype (needs_functionType (List.Subset.refl _))
  | namedType d => exact htype (needs_namedType (by simp))
  | addDecl parent name kind => exact hdecl (needs_addDecl (List.Subset.refl _))
  | detachedDecl name kind => exact hdecl (needs_detachedDecl (List.Subset.refl _))
  | setDecl id d => exact hquiet (needs_setDecl (by simp))
  | markDeprecated id message => exact hquiet (needs_modifyDecl fun d => by simp [Decl.refs])
  | addBase record base => exact hquiet (needs_addBase (by simp))
  | function linkage parent name result params body =>
    refine hdecl (needs_callable ?_ fun type => ?_)
    · simp only [Call.refs]
      grind
    · simp only [Call.refs, DeclKind.refs]
      grind
  | method isVirtual record name result params body =>
    refine hdecl (needs_callable ?_ fun type => ?_)
    · simp only [Call.refs]
      grind
    · simp only [Call.refs, DeclKind.refs]
      grind
  | setBody id body =>
    refine hquiet (needs_modifyDecl fun d => ?_)
    have hkind := refs_withBody body d.kind
    simp only [Call.refs, Decl.refs]
    grind
  | stmt kind => exact (needs_stmt (List.Subset.refl _)).map (by simp)
  | expr kind type => exact hexpr (needs_expr (List.Subset.refl _))
  | typeOf e => exact htype needs_typeOf
  | intLit _ | floatLit _ | boolLit _ | nullPtr =>
    exact hexpr (needs_typed needs_builtin (by simp))
  | stringLit value =>
    refine hexpr (needs_builtin.bind fun _ => needs_constOf.bind fun char => ?_)
    exact needs_typed (needs_array (by simp)) (by simp)
  | declRef d => exact hexpr (needs_declRef (by simp))
  | load d =>
    refine hexpr ((needs_declRef (by simp)).bind fun _ => ?_)
    exact needs_typed needs_typeOf (by simp)
  | rvalue _ | paren _ | conditional _ _ _ =>
    exact hexpr (needs_typed needs_typeOf (by simp))
  | unary op operand =>
    exact hexpr (needs_typeOf.bind fun _ =>
      needs_typed (needs_unaryType (by simp)) (by simp))
  | binary op lhs rhs =>
    refine hexpr ?_
    unfold Builder.binary
    split_ifs
    · exact needs_typed needs_builtin (by simp)
    · exact needs_typed needs_typeOf (by simp)
    · exact needs_typed needs_typeOf (by simp)
  | call function args =>
    refine hexpr (needs_calleeTypes.bind fun types => (needs_expr ?_).bind fun use => ?_)
    · simp
    refine (needs_pointer (by simp)).bind fun pointer => (needs_expr ?_).bind fun callee => needs_expr ?_
    · simp
    · simp only [ExprKind.refs, Call.refs]
      grind
  | memberCall base method isArrow args =>
    refine hexpr (needs_calleeTypes.bind fun types => (needs_expr ?_).bind fun callee => needs_expr ?_)
    · simp
    · simp only [ExprKind.refs, Call.refs]
      grind
  | member base field isArrow =>
    refine hexpr (needs_declType.bind fun type => ?_)
    cases type with
    | none => exact needs_typed needs_typeOf (by simp)
    | some type => exact needs_typed (needs_pure (by simp)) (by simp)
  | subscript base index =>
    refine hexpr (needs_typeOf.bind fun _ => needs_canonicalKind.bind fun kind => needs_expr ?_)
    cases kind <;> simp
  | thisPointer record implicit =>
    refine hexpr ((needs_namedType (by simp)).bind fun type => ?_)
    exact needs_typed (needs_pointer (by simp)) (by simp)
  | sizeOf arg => exact hexpr (needs_typed needs_builtin (by simp))

/-- A builder that calls have led to, with the references that they returned. -/
inductive Built (file : String) : List Ref → Builder → Prop
  | start : Built file [] (start file)
  | call {returned : List Ref} {b b' : Builder} {c : Call} {result : Option Ref}
      (h : Built file returned b) (hrefs : ∀ r ∈ c.refs, b.ast.inRange r)
      (hrun : c.run b = some (result, b')) : Built file (result.toList ++ returned) b'

theorem sound_start (file : String) : (start file).Sound := by
  refine ⟨Ast.valid_iff.mpr fun r hr => ?_, by simp [start], by simp [start]⟩
  simp [Ast.Holds, start] at hr

theorem Built.sound {file : String} {returned : List Ref} {b : Builder} (h : Built file returned b) :
    b.Sound ∧ ∀ r ∈ returned, b.ast.inRange r := by
  induction h with
  | start => exact ⟨sound_start file, by simp⟩
  | call _ hrefs hrun ih =>
    obtain ⟨hsound, hgrows, hgiven⟩ := needs_run _ _ _ _ ih.1 hrefs hrun
    refine ⟨hsound, fun r hr => ?_⟩
    rcases List.mem_append.mp hr with hr | hr
    · exact hgiven r hr
    · exact hgrows.inRange (ih.2 r hr)

/-- **Whatever is built is valid**, after any calls that are handed references inside the arenas. -/
theorem built_tree_is_valid {file : String} {returned : List Ref} {b : Builder}
    (h : Built file returned b) :
    b.ast.firstMissing? = none ∧ (∀ r ∈ returned, b.ast.inRange r) ∧
      ∀ (c : Call) result b', (∀ r ∈ c.refs, b.ast.inRange r) → c.run b = some (result, b') →
        b.ast.Grows b'.ast := by
  obtain ⟨hsound, hreturned⟩ := h.sound
  refine ⟨Ast.firstMissing?_eq_none_iff.mpr hsound.valid, hreturned, fun c result b' hrefs hrun => ?_⟩
  exact (needs_run c b result b' hsound hrefs hrun).2.1

theorem node_is_valid :
    ∃ b, Built "node.h" [.decl ⟨1⟩, .type ⟨1⟩, .type ⟨0⟩, .decl ⟨0⟩] b ∧ b.ast.firstMissing? = none := by
  have hempty : Built "node.h" [] _ := .start
  have hnode := hempty.call (c := .addDecl none "Node" (.record { tag := .struct })) (by decide) rfl
  have htype := hnode.call (c := .namedType ⟨0⟩) (by decide) rfl
  have hpointer := htype.call (c := .pointer ⟨0⟩) (by decide) rfl
  have hnext := hpointer.call (c := .addDecl (some ⟨0⟩) "next" (.field { type := ⟨1⟩ })) (by decide) rfl
  exact ⟨_, hnext, (built_tree_is_valid hnext).1⟩

end Builder

end Interop.Native

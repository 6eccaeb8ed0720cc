import Interop.Proofs.BitFieldPlacement
import Interop.Proofs.EnsuredSteps
import Interop.Proofs.TypeNames

/-!
# The data of records

The same members of a record are emitted into its own struct and into that of every record with a vtable
that is derived from it. Names differ there. A `Datum` is what is left of a field when names are ignored,
and two emissions of the same members hold the same data in the same order (`emitMembers_sameData`,
`flattenFrom_sameData`).
-/

namespace Interop.Binding

open Native (DeclId TypeId)
open Emit
open Managed (Member TypeName)

variable {items items' : RecordItems} {id record anonymous : DeclId}
  {isUnion isInherited isInherited' : Bool} {type element : TypeId} {nested nested' : DeclId → Emit Member}
  {settings : Settings} {m : Member} {units : List BitUnit} {f : Native.Field} {fuel size : Nat} {env : Env}
  {α : Type} {path : Managed.Expr} {ms : List Member} {imports : List String} {storage : String}
  {base : Option String}

/-! ## Data -/

def isDataField : Member → Bool
  | .field _ .plain _ _ _ => true
  | .field _ (.buffer _) _ _ _ => true
  | _ => false

/-- The C# type of a native type, written inside of a record. -/
def IsTypeIn (env : Env) (record : Option DeclId) (type : TypeId) (usage : Usage) (managed : TypeName) :
    Prop :=
  ∃ location mapped, (TypeContext.mk env.ast env.symbols record location).map type usage = .ok mapped ∧
    mapped.type = managed

/-- What a field holds, whatever struct it stands in. -/
inductive Datum where
  | vtable
  | value (type : TypeId)
  | array (element : TypeId) (size : Nat)
  | bits (storage : String)
  | anonymous (record : DeclId)

/-- The field holds the datum. It is written inside of a record, next to some nested types. -/
def Datum.IsHeldBy (env : Env) (record : Option DeclId) (types : List Member) : Datum → Member → Prop
  | .vtable, .field _ .plain type _ _ => type = .pointer (.pointer (.named "void"))
  | .value native, .field _ .plain type _ _ => IsTypeIn env record native .field type
  | .array element size, .field _ (.buffer length) type _ _ =>
    length = size ∧ IsTypeIn env record element .pointee type
  | .array element size, .field _ .plain type _ _ =>
    ∃ name inner, type = .named name ∧ inlineArray name inner size ∈ types ∧
      IsTypeIn env record element .pointee inner
  | .bits storage, .field _ .plain type _ _ => type = .named storage
  | .anonymous id, .field _ .plain type _ _ =>
    ∃ name, qualifiedName? env.ast env.symbols id record = some name ∧ type = .named name
  | _, _ => False

theorem Datum.IsHeldBy.mono {record : Option DeclId} {datum : Datum}
    (h : datum.IsHeldBy env record types field) (hsub : types ⊆ types') :
    datum.IsHeldBy env record types' field := by
  unfold Datum.IsHeldBy at h ⊢
  split at h
  case h_4 =>
    obtain ⟨name, inner, htype, hmem, hinner⟩ := h
    exact ⟨name, inner, htype, hsub hmem, hinner⟩
  all_goals exact h

theorem isTypeIn_of_gives {scope : Scope} {m : MappedType}
    (h : (mapType type usage location).Gives env scope m) : IsTypeIn env scope.record type usage m.type :=
  ⟨location, m, gives_mapType.mp h, rfl⟩

namespace RecordItems

variable {a b : RecordItems}

def data (items : RecordItems) : List Member :=
  items.fields.filter isDataField

@[simp] theorem data_append : (a ++ b).data = a.data ++ b.data :=
  List.filter_append _ _

end RecordItems

/-- The fields of two parts of structs, which are written inside of two records, hold the same data. -/
def SameData (env : Env) (record : Option DeclId) (items : RecordItems) (record' : Option DeclId)
    (items' : RecordItems) : Prop :=
  List.Forall₂ (fun field field' => ∃ datum : Datum, datum.IsHeldBy env record items.nested field ∧
    datum.IsHeldBy env record' items'.nested field') items.data items'.data

namespace SameData

variable {env : Env} {record record' : Option DeclId} {a a' b b' : RecordItems}

theorem of_no_data (h : a.data = []) (h' : a'.data = []) : SameData env record a record' a' := by
  unfold SameData
  rw [h, h']
  exact .nil

theorem append (h : SameData env record a record' a') (h' : SameData env record b record' b') :
    SameData env record (a ++ b) record' (a' ++ b') := by
  unfold SameData
  rw [RecordItems.data_append, RecordItems.data_append]
  apply List.rel_append
  · refine h.imp ?_
    rintro field field' ⟨datum, hheld, hheld'⟩
    exact ⟨datum, hheld.mono (List.subset_append_left _ _), hheld'.mono (List.subset_append_left _ _)⟩
  · refine h'.imp ?_
    rintro field field' ⟨datum, hheld, hheld'⟩
    exact ⟨datum, hheld.mono (List.subset_append_right _ _), hheld'.mono (List.subset_append_right _ _)⟩

end SameData

/-! ## Bit fields -/

theorem HeldType.unique (h : HeldType env type held) (h' : HeldType env type held') : held = held' := by
  obtain ⟨kind, hkind, h⟩ := h
  obtain ⟨kind', hkind', h'⟩ := h'
  obtain rfl := Option.mem_unique hkind' hkind
  cases kind' with
  | enum id =>
    obtain ⟨d, hd, h⟩ := h
    obtain ⟨d', hd', h'⟩ := h'
    obtain rfl := Option.mem_unique hd' hd
    cases hdkind : d'.kind <;> rw [hdkind] at h h' <;> exact h.trans h'.symm
  | _ => exact h.trans h'.symm

theorem letters_of_storageOf (h : storageOf? name = some storage) : ∀ c ∈ name.toList, c.isAlpha = true := by
  have hall : ∀ entry ∈ Managed.IntegerType.table, entry.1.toList.all Char.isAlpha = true := by
    decide
  rw [← List.all_eq_true]
  unfold storageOf? at h
  split at h
  · rename_i hbool
    rw [hbool]
    decide
  split at h
  · cases h
  · obtain ⟨type, htype, -⟩ := Option.map_eq_some_iff.mp h
    exact hall (name, type) (mem_of_lookup htype)

section

variable {env : Env} {scope scope' : Scope}

theorem bitStorage_unique (h : (bitStorage type location).Gives env scope storage)
    (h' : (bitStorage type location').Gives env scope' storage') : storage = storage' := by
  obtain ⟨held, mapped, hheld, hmapped, hname⟩ := gives_bitStorage.mp h
  obtain ⟨held', mapped', hheld', hmapped', hname'⟩ := gives_bitStorage.mp h'
  obtain rfl := hheld.unique hheld'
  have htext : mapped.name = mapped'.name := (mapType_sameInScopes hmapped hmapped').text_eq_of_letters
    (letters_of_storageOf hname) (letters_of_storageOf hname')
  rw [htext, hname'] at hname
  exact (Option.some.inj hname).symm

theorem bitItem_unique (h : (bitItemOf isUnion id).Gives env scope item)
    (h' : (bitItemOf isUnion id).Gives env scope' item') : item = item' := by
  simp only [bitItemOf, gives_bind, gives_decl] at h h'
  obtain ⟨d, hd, h⟩ := h
  obtain ⟨d', hd', h'⟩ := h'
  obtain rfl := Option.mem_unique hd' hd
  cases hkind : d'.kind with
  | field f =>
    obtain ⟨type, bitWidth, offset⟩ := f
    cases bitWidth with
    | none =>
      simp only [hkind, gives_pure] at h h'
      exact h.symm.trans h'
    | some width =>
      simp only [hkind] at h h'
      split at h
      · rename_i hwidth
        rw [if_pos hwidth] at h'
        simp only [gives_pure] at h h'
        exact h.symm.trans h'
      · rename_i hwidth
        rw [if_neg hwidth] at h'
        simp only [gives_bind] at h h'
        obtain ⟨storage, hstorage, h⟩ := h
        obtain ⟨storage', hstorage', h'⟩ := h'
        obtain rfl := bitStorage_unique hstorage hstorage'
        -- Reports do not change the result.
        have hitem : BitItem.bitField ⟨id, storage, storageBits storage,
            min width.toNat (storageBits storage)⟩ = item := by
          split at h <;> split at h <;> simpa using h
        have hitem' : BitItem.bitField ⟨id, storage, storageBits storage,
            min width.toNat (storageBits storage)⟩ = item' := by
          split at h' <;> split at h' <;> simpa using h'
        exact hitem.symm.trans hitem'
  | _ =>
    simp only [hkind, gives_pure] at h h'
    exact h.symm.trans h'

theorem forall₂_unique {β : Type} {R R' : α → β → Prop} (hunique : ∀ a b b', R a b → R' a b' → b = b')
    {as : List α} {bs bs' : List β} (h : List.Forall₂ R as bs) (h' : List.Forall₂ R' as bs') : bs = bs' := by
  induction h generalizing bs' with
  | nil => cases h' with | nil => rfl
  | cons hfirst _ ih =>
    cases h' with
    | cons hfirst' hrest' => rw [hunique _ _ _ hfirst hfirst', ih hrest']

theorem bitUnits_unique {members : List DeclId} {units' : List BitUnit}
    (h : (bitUnitsOf isUnion members).Gives env scope units)
    (h' : (bitUnitsOf isUnion members).Gives env scope' units') : units = units' := by
  simp only [bitUnitsOf, gives_bind, gives_pure, gives_forEach] at h h'
  obtain ⟨items, hitems, rfl⟩ := h
  obtain ⟨items', hitems', rfl⟩ := h'
  have hunique : items = items' := forall₂_unique
    (fun id item item' (h : (bitItemOf isUnion id).Gives env scope item)
      (h' : (bitItemOf isUnion id).Gives env scope' item') => bitItem_unique h h') hitems hitems'
  rw [hunique]

/-! ## Members -/

theorem exists_kind_of_arrayShape (h : (arrayShape type location).Gives env scope shape) :
    ∃ kind, env.ast.canonicalKind? type = some kind ∧
      shape = match kind with
        | .constantArray element size => some (element, size.toNat)
        | .incompleteArray element => some (element, 1)
        | _ => none := by
  simp only [arrayShape, gives_bind, gives_canonicalKind] at h
  obtain ⟨kind, hkind, h⟩ := h
  refine ⟨kind, hkind, ?_⟩
  split at h
  · rename_i hnone
    rw [gives_pure] at h
    rw [← h]
    exact hnone.symm
  · rename_i element size hsome
    simp only [gives_bind] at h
    obtain ⟨inner, -, h⟩ := h
    split at h
    · simp at h
    · simp at h
    · rw [gives_pure] at h
      rw [← h]
      exact hsome.symm

theorem arrayShape_unique (h : (arrayShape type location).Gives env scope shape)
    (h' : (arrayShape type location').Gives env scope' shape') : shape = shape' := by
  obtain ⟨kind, hkind, rfl⟩ := exists_kind_of_arrayShape h
  obtain ⟨kind', hkind', rfl⟩ := exists_kind_of_arrayShape h'
  rw [Option.mem_unique hkind hkind']

theorem emitBitUnit_sameData {base' : Option String}
    (h : (emitBitUnit id units false base).Gives env scope items)
    (h' : (emitBitUnit id units false base').Gives env scope' items') :
    SameData env scope.record items scope'.record items' := by
  unfold emitBitUnit at h h'
  split at h
  · rename_i hfind
    simp only [hfind, gives_pure] at h h'
    subst h h'
    exact .of_no_data rfl rfl
  · rename_i unit position hfind
    simp only [hfind, gives_bind, gives_pure] at h h'
    obtain ⟨properties, -, rfl⟩ := h
    obtain ⟨properties', -, rfl⟩ := h'
    exact .cons ⟨.bits unit.storage, rfl, rfl⟩ .nil

theorem isFixedBufferElement_eq (hs : env.symbols.Describes env.ast settings) {m : MappedType}
    (h : (mapType type usage location).Gives env scope m)
    (h' : (mapType type usage location').Gives env scope' m') :
    Managed.isFixedBufferElement m.name = Managed.isFixedBufferElement m'.name := by
  have hkeyword : ∀ name, Managed.keywords.contains name = false →
      Managed.isFixedBufferElement name = false := by
    have hall : ∀ name ∈ ["bool", "byte", "char", "short", "int", "long", "sbyte", "ushort", "uint",
        "ulong", "float", "double"], Managed.keywords.contains name = true := by
      decide
    intro name hname
    rw [Managed.isFixedBufferElement, Bool.eq_false_iff]
    intro hmem
    rw [hall name (List.contains_iff_mem.mp hmem)] at hname
    cases hname
  rcases (mapType_sameInScopes h h').text_eq_of_keyword hs with htext | ⟨hname, hname'⟩
  · rw [MappedType.name, htext]
    rfl
  · exact (hkeyword _ hname).trans (hkeyword _ hname').symm

theorem arrayField_sameData (hs : env.symbols.Describes env.ast settings)
    (h : (arrayField id d type element size []).Gives env scope items)
    (h' : (arrayField id d type element size []).Gives env scope' items') :
    SameData env scope.record items scope'.record items' := by
  simp only [arrayField, gives_bind] at h h'
  obtain ⟨m, hm, spelled, -, obsolete, -, name, -, h⟩ := h
  obtain ⟨m', hm', spelled', -, obsolete', -, name', -, h'⟩ := h'
  have hfixed := isFixedBufferElement_eq hs hm hm'
  split at h
  · rename_i hbuffer
    rw [if_pos (hfixed ▸ hbuffer)] at h'
    simp only [gives_bind, gives_markPointers, gives_pure, true_and, exists_const] at h h'
    subst h h'
    exact .cons ⟨.array element size, ⟨rfl, isTypeIn_of_gives hm⟩, rfl, isTypeIn_of_gives hm'⟩ .nil
  · rename_i hbuffer
    rw [if_neg (hfixed ▸ hbuffer)] at h'
    simp only [gives_bind, gives_importNamespace, gives_pure, true_and, exists_const] at h h'
    subst h h'
    exact .cons ⟨.array element size, ⟨_, _, rfl, .head _, isTypeIn_of_gives hm⟩,
      _, _, rfl, .head _, isTypeIn_of_gives hm'⟩ .nil

theorem fieldOfShape_cases (h : (match shape with
      | some (element, size) => arrayField id d f.type element size offset
      | none => do
        let mapped ← mapType f.type .field d.location
        let obsolete ← fieldObsoleteAttribute id f.type
        let attrs := offset ++ mapped.nativeAttribute ++ obsolete.toList
        return { fields := [.field attrs .plain mapped.type (← nameOf id) none] } :
        Emit RecordItems).Gives env scope items)
    (hshape : (arrayShape f.type d.location).Gives env scope shape) :
    (∃ element size, (arrayShape f.type d.location).Gives env scope (some (element, size)) ∧
        (arrayField id d f.type element size offset).Gives env scope items) ∨
      ∃ mapped attrs, (arrayShape f.type d.location).Gives env scope none ∧
        (mapType f.type .field d.location).Gives env scope mapped ∧
        items = { fields := [.field attrs .plain mapped.type (env.symbols.name id) none] } := by
  cases shape with
  | some shape => exact .inl ⟨shape.1, shape.2, hshape, h⟩
  | none =>
    simp only [gives_bind, gives_nameOf, gives_pure, exists_eq_left] at h
    obtain ⟨mapped, hmapped, obsolete, -, rfl⟩ := h
    exact .inr ⟨mapped, _, hshape, hmapped, rfl⟩

theorem emitField_cases (h : (emitField id d f isUnion).Gives env scope items) :
    ∃ offset, (isUnion = false → offset = []) ∧
      ((∃ element size, (arrayShape f.type d.location).Gives env scope (some (element, size)) ∧
          (arrayField id d f.type element size offset).Gives env scope items) ∨
        ∃ mapped attrs, (arrayShape f.type d.location).Gives env scope none ∧
          (mapType f.type .field d.location).Gives env scope mapped ∧
          items = { fields := [.field attrs .plain mapped.type (env.symbols.name id) none] }) := by
  cases isUnion with
  | true =>
    simp only [emitField, if_true, gives_bind, gives_pure, exists_eq_left'] at h
    obtain ⟨offset, -, shape, hshape, h⟩ := h
    exact ⟨[offset], by simp, fieldOfShape_cases h hshape⟩
  | false =>
    simp only [emitField, Bool.false_eq_true, if_false, gives_bind, gives_pure, exists_eq_left'] at h
    obtain ⟨shape, hshape, h⟩ := h
    exact ⟨[], fun _ => rfl, fieldOfShape_cases h hshape⟩

theorem emitField_sameData (hs : env.symbols.Describes env.ast settings)
    (h : (emitField id d f false).Gives env scope items)
    (h' : (emitField id d f false).Gives env scope' items') :
    SameData env scope.record items scope'.record items' := by
  obtain ⟨offset, hoffset, hcases⟩ := emitField_cases h
  obtain ⟨offset', hoffset', hcases'⟩ := emitField_cases h'
  obtain rfl := hoffset rfl
  obtain rfl := hoffset' rfl
  rcases hcases with ⟨element, size, hshape, h⟩ | ⟨mapped, attrs, hshape, hmapped, rfl⟩ <;>
    rcases hcases' with ⟨element', size', hshape', h'⟩ | ⟨mapped', attrs', hshape', hmapped', rfl⟩ <;>
    cases arrayShape_unique hshape hshape'
  · exact arrayField_sameData hs h h'
  · exact .cons ⟨.value f.type, isTypeIn_of_gives hmapped, isTypeIn_of_gives hmapped'⟩ .nil

theorem emitAnonymous_cases (h : (emitAnonymous nested id d isUnion isInherited).Gives env scope items) :
    ∃ member type types accessors, env.symbols.anonymous? id = some member ∧
      qualifiedName? env.ast env.symbols id scope.record = some type ∧
      (∀ t ∈ types, isInherited = false ∧ (nested id).Gives env scope t) ∧
      (forwardingAccessors id member.field).Gives env scope accessors ∧
      items = {
        fields :=
          [.field (startOffset isUnion ++ [.nativeTypeName (provenanceName d)]) .plain (.named type)
            member.field none]
        nested := types
        accessors } := by
  simp only [emitAnonymous, gives_bind, gives_symbols, exists_eq_left] at h
  split at h
  · simp at h
  rename_i member hmember
  simp only [gives_bind, gives_qualifiedName] at h
  obtain ⟨type, htype, h⟩ := h
  cases isInherited with
  | true =>
    simp only [if_true, gives_bind, gives_pure, exists_eq_left'] at h
    obtain ⟨accessors, haccessors, rfl⟩ := h
    exact ⟨member, type, [], accessors, hmember, htype, by simp, haccessors, rfl⟩
  | false =>
    simp only [Bool.false_eq_true, if_false, gives_bind, gives_pure, exists_eq_left'] at h
    obtain ⟨inner, hinner, accessors, haccessors, rfl⟩ := h
    refine ⟨member, type, [inner], accessors, hmember, htype, ?_, haccessors, rfl⟩
    intro t ht
    obtain rfl := List.mem_singleton.mp ht
    exact ⟨rfl, hinner⟩

theorem emitAnonymous_sameData (h : (emitAnonymous nested id d false isInherited).Gives env scope items)
    (h' : (emitAnonymous nested' id d false isInherited').Gives env scope' items') :
    SameData env scope.record items scope'.record items' := by
  obtain ⟨member, type, types, accessors, -, htype, -, -, rfl⟩ := emitAnonymous_cases h
  obtain ⟨member', type', types', accessors', -, htype', -, -, rfl⟩ := emitAnonymous_cases h'
  exact .cons ⟨.anonymous id, ⟨type, htype, rfl⟩, type', htype', rfl⟩ .nil

/-! ## Members that hold no data -/

namespace RecordItems

def others (items : RecordItems) : List Member :=
  items.nested ++ items.accessors ++ items.methods ++ items.named

/-- Only fields are data of the objects. -/
def Sorted (items : RecordItems) : Prop :=
  ∀ m ∈ items.others, isDataField m = false

theorem Sorted.of_nil (h : items.others = []) : items.Sorted := by
  intro m hm
  rw [h] at hm
  cases hm

theorem Sorted.append {a b : RecordItems} (ha : a.Sorted) (hb : b.Sorted) : (a ++ b).Sorted := by
  intro m hm
  have hgroups : m ∈ a.others ∨ m ∈ b.others := by
    simp only [others, List.mem_append] at hm ⊢
    simp only [show (a ++ b).nested = a.nested ++ b.nested from rfl,
      show (a ++ b).accessors = a.accessors ++ b.accessors from rfl,
      show (a ++ b).methods = a.methods ++ b.methods from rfl,
      show (a ++ b).named = a.named ++ b.named from rfl, List.mem_append] at hm
    tauto
  rcases hgroups with hm | hm
  · exact ha m hm
  · exact hb m hm

theorem Sorted.filter_members (h : items.Sorted) : items.members.filter isDataField = items.data := by
  have hothers : items.others.filter isDataField = [] := by
    rw [List.filter_eq_nil_iff]
    intro m hm
    simp [h m hm]
  have hmembers : items.members = items.fields ++ items.others := by
    simp [members, others]
  rw [hmembers, List.filter_append, hothers, List.append_nil]
  rfl

end RecordItems

/-- Every member that is emitted for a nested record is a type. -/
def EmitsTypes (env : Env) (nested : DeclId → Emit Member) : Prop :=
  ∀ id scope m, (nested id).Gives env scope m → isDataField m = false

theorem bitProperty_not_data : (bitProperty place u slot).Ensures env imports (isDataField · = false) := by
  refine .skip fun d => ?_
  split
  · exact .skip fun mapped => .skip fun obsolete => .skip fun name => .pure rfl
  · exact .malformed

theorem emitGlobal_not_data : (emitGlobal id).Ensures env imports (isDataField · = false) := by
  refine .skip fun d => ?_
  split
  · refine .ite .unsupported (.skip fun mapped => .skip fun obsolete => .skip fun name => ?_)
    split
    · refine .skip fun ast => .skip fun type => .skip fun value => .pure ?_
      split <;> rfl
    · refine .skip fun kind => ?_
      split
      · exact .skip fun element => .pure rfl
      · exact .pure rfl
  · exact .malformed

theorem emitEnum_not_data : (emitEnum id).Ensures env imports (isDataField · = false) := by
  refine .skip fun d => ?_
  split
  · exact .skip fun underlying => .skip fun obsolete => .skip fun constants => .skip fun name => .pure rfl
  · exact .malformed

theorem emitMethod_not_data : (emitMethod record id).Ensures env imports (isDataField · = false) := by
  refine .skip fun d => ?_
  split
  · refine .skip fun owner => .skip fun proto => .skip fun result => .skip fun params => ?_
    split <;> exact .skip fun method => .pure rfl
  · exact .malformed

theorem emitTrampoline_not_data :
    (emitTrampoline record slot id).Ensures env imports (isDataField · = false) := by
  refine .skip fun d => ?_
  split
  · refine .skip fun proto => ?_
    split
    · exact .malformed
    refine .ite .unsupported ?_
    split
    · exact .unsupported
    refine .skip fun result => .skip fun params => .skip fun types => .skip fun names => ?_
    exact .skip fun _ => .skip fun _ => .skip fun self => .skip fun obsolete => .skip fun name => .pure rfl
  · exact .malformed

theorem forwardField_not_data :
    (forwardField anonymous id d type path).Ensures env imports (isDataField · = false) := by
  refine .skip fun name => .skip fun _ => .skip fun shape => ?_
  split
  · exact .skip fun element => .ite (.skip fun _ => .skip fun _ => .skip fun _ => .pure rfl)
      (.skip fun owner => .pure rfl)
  · exact .skip fun mapped => .pure rfl

theorem forwardMember_not_data {inner : DeclId → Managed.Expr → Emit (List Member)}
    (hinner : ∀ id path, (inner id path).Ensures env imports fun ms => ∀ m ∈ ms, isDataField m = false) :
    (forwardMember inner anonymous path id).Ensures env imports fun ms =>
      ∀ m ∈ ms, isDataField m = false := by
  refine .skip fun d => ?_
  split
  · rename_i type _ _ _
    have hbits : (forwardBits id d type path).Ensures env imports (isDataField · = false) :=
      .skip fun _ => .skip fun _ => .pure rfl
    exact hbits.bind fun m hm => .pure (List.forall_mem_singleton.mpr hm)
  · exact forwardField_not_data.bind fun m hm => .pure (List.forall_mem_singleton.mpr hm)
  · refine .skip fun symbols => ?_
    split
    · exact hinner _ _
    · exact .pure (List.forall_mem_nil _)
  · exact .pure (List.forall_mem_nil _)

theorem forwardFrom_not_data :
    (forwardFrom fuel anonymous path).Ensures env imports fun ms => ∀ m ∈ ms, isDataField m = false := by
  induction fuel generalizing anonymous path with
  | zero => exact .ofResult fun _ h => by cases h
  | succ fuel ih =>
    refine .skip fun ast => .skip fun members => ?_
    refine (Ensures.forEach fun id _ => forwardMember_not_data fun _ _ => ih).bind fun parts hparts => ?_
    refine .pure fun m hm => ?_
    obtain ⟨part, hpart, hm⟩ := List.mem_flatten.mp hm
    exact hparts part hpart m hm

theorem nestedType_no_data {H : Prop} {m : Emit Member}
    (h : H → m.Ensures env imports (isDataField · = false)) :
    (nestedType d m).Ensures env imports fun items => items.data = [] ∧ (H → items.Sorted) := by
  refine (Ensures.imp h).skippableMember.bind fun result hresult => ?_
  split
  · exact .pure ⟨rfl, fun _ => .of_nil rfl⟩
  · exact .ite (.pure ⟨rfl, fun h => List.forall_mem_singleton.mpr (hresult _ rfl h)⟩)
      (.pure ⟨rfl, fun h => List.forall_mem_singleton.mpr (hresult _ rfl h)⟩)

theorem emitOwnMember_no_data :
    (emitOwnMember nested record id d).Ensures env imports fun items =>
    items.data = [] ∧ (EmitsTypes env nested → items.Sorted) := by
  have hempty : (pure {} : Emit RecordItems).Ensures env imports fun items =>
      items.data = [] ∧ (EmitsTypes env nested → items.Sorted) :=
    .pure ⟨rfl, fun _ => .of_nil rfl⟩
  unfold emitOwnMember
  split
  · exact .skip fun symbols => .ite hempty (nestedType_no_data fun h => .of_gives (h id))
  · exact nestedType_no_data fun _ => emitEnum_not_data
  · refine .ite hempty (emitMethod_not_data.skippableMember.bind fun method hmethod => .pure ⟨rfl, ?_⟩)
    exact fun _ m hm => hmethod m (by simpa [RecordItems.others] using hm)
  · refine emitGlobal_not_data.skippableMember.bind fun var hvar => .pure ⟨?_, fun _ => ?_⟩
    · simpa [RecordItems.data] using hvar
    · exact .of_nil rfl
  · exact .skip fun _ => hempty
  · exact .skip fun _ => hempty
  · exact .skip fun _ => hempty
  · exact hempty

/-! ## Emitted members -/

/-- **What one member of a record is emitted as.** Only fields are taken over. -/
theorem emitMember_cases (h : (emitMember nested record isUnion isInherited units id).Gives env scope items)
    (hd : env.ast.decl? id = some d) :
    match d.kind with
    | .field { bitWidth := some _, .. } => (emitBitUnit id units isUnion
        (if isInherited then some (env.symbols.name record) else none)).Gives env scope items
    | .field f => (emitField id d f isUnion).Gives env scope items
    | .record { isAnonymous := true, .. } =>
      (emitAnonymous nested id d isUnion isInherited).Gives env scope items
    | _ => items = {} ∨ (emitOwnMember nested record id d).Gives env scope items := by
  have hother : (if isInherited then pure {} else emitOwnMember nested record id d : Emit _).Gives env scope
      items → items = {} ∨ (emitOwnMember nested record id d).Gives env scope items := by
    cases isInherited with
    | true => exact fun h => .inl (gives_pure.mp h).symm
    | false => exact .inr
  simp only [emitMember, gives_bind, gives_decl, exists_found hd] at h
  revert h
  cases d.kind with
  | field f =>
    obtain ⟨type, _ | width, offset⟩ := f
    · exact fun h => h
    · cases isInherited <;> simp
  | record r =>
    obtain ⟨tag, isDefinition, _ | _, bases, members⟩ := r
    · exact hother
    · exact fun h => h
  | _ => exact hother

theorem emitMember_sameData (hs : env.symbols.Describes env.ast settings)
    (h : (emitMember nested record false isInherited units id).Gives env scope items)
    (h' : (emitMember nested' record false isInherited' units id).Gives env scope' items') :
    SameData env scope.record items scope'.record items' := by
  -- Whatever is no field of the objects has no data, taken over or not.
  have hother : ∀ {scope nested d items}, items = {} ∨ (emitOwnMember nested record id d).Gives env scope
      items → items.data = [] := by
    rintro scope nested d items (rfl | h)
    · rfl
    · exact (h.of_ensures fun _ => emitOwnMember_no_data).1
  obtain ⟨d, hd, -⟩ := gives_bind.mp h
  have hcases := emitMember_cases h (gives_decl.mp hd)
  have hcases' := emitMember_cases h' (gives_decl.mp hd)
  revert hcases hcases'
  cases d.kind with
  | field f =>
    obtain ⟨type, _ | width, offset⟩ := f
    · exact emitField_sameData hs
    · exact emitBitUnit_sameData
  | record r =>
    obtain ⟨tag, isDefinition, _ | _, bases, members⟩ := r
    · exact fun h h' => .of_no_data (hother h) (hother h')
    · exact emitAnonymous_sameData
  | _ => exact fun h h' => .of_no_data (hother h) (hother h')

/-! ## Records -/

theorem collect_sameData {f f' : α → Emit RecordItems} {as : List α}
    (hstep : ∀ a items items', (f a).Gives env scope items → (f' a).Gives env scope' items' →
      SameData env scope.record items scope'.record items') (h : (collect f as).Gives env scope items)
    (h' : (collect f' as).Gives env scope' items') :
    SameData env scope.record items scope'.record items' := by
  induction as generalizing items items' with
  | nil =>
    simp only [collect, gives_pure] at h h'
    subst h h'
    exact .of_no_data rfl rfl
  | cons a as ih =>
    simp only [collect, gives_bind, gives_pure] at h h'
    obtain ⟨first, hfirst, rest, hrest, rfl⟩ := h
    obtain ⟨first', hfirst', rest', hrest', rfl⟩ := h'
    exact (hstep a first first' hfirst hfirst').append (ih hrest hrest')

theorem emitMembers_sameData (hs : env.symbols.Describes env.ast settings)
    (h : (emitMembers nested record false isInherited).Gives env scope items)
    (h' : (emitMembers nested' record false isInherited').Gives env scope' items') :
    SameData env scope.record items scope'.record items' := by
  simp only [emitMembers, gives_bind, gives_ast, exists_eq_left, gives_lift_option] at h h'
  obtain ⟨members, hmembers, units, hunits, h⟩ := h
  obtain ⟨members', hmembers', units', hunits', h'⟩ := h'
  obtain rfl := Option.mem_unique hmembers' hmembers
  obtain rfl := bitUnits_unique hunits hunits'
  exact collect_sameData (fun id items items' h h' => emitMember_sameData hs h h') h h'

theorem baseRecords_unique {bases : List Native.Base} {records records' : List DeclId}
    (h : (baseRecords bases).Gives env scope records) (h' : (baseRecords bases).Gives env scope' records') :
    records = records' := by
  simp only [baseRecords, gives_bind, gives_ast, exists_eq_left, gives_forEach, gives_lift_option,
    gives_pure] at h h'
  obtain ⟨found, hfound, rfl⟩ := h
  obtain ⟨found', hfound', rfl⟩ := h'
  have hunique : found = found' := forall₂_unique
    (fun b record record' (h : env.ast.recordOf? b.type = some record)
      (h' : env.ast.recordOf? b.type = some record') => Option.mem_unique h h') hfound hfound'
  rw [hunique]

theorem flattenFrom_sameData (hs : env.symbols.Describes env.ast settings) {fuel' : Nat}
    {base base' : DeclId} (hbase : env.symbols.definition base = env.symbols.definition base')
    (h : (flattenFrom nested fuel base).Gives env scope items)
    (h' : (flattenFrom nested' fuel' base').Gives env scope' items') :
    SameData env scope.record items scope'.record items' := by
  induction fuel generalizing fuel' base base' items items' with
  | zero => simp [flattenFrom] at h
  | succ fuel ih =>
    cases fuel' with
    | zero => simp [flattenFrom] at h'
    | succ fuel' =>
      simp only [flattenFrom, gives_bind, gives_symbols, exists_eq_left, gives_decl] at h h'
      rw [hbase] at h
      obtain ⟨d, hd, h⟩ := h
      obtain ⟨d', hd', h'⟩ := h'
      obtain rfl := Option.mem_unique hd' hd
      cases hkind : d'.kind with
      | record r =>
        simp only [hkind, gives_bind, gives_pure] at h h'
        obtain ⟨records, hrecords, inherited, hinherited, own, hown, rfl⟩ := h
        obtain ⟨records', hrecords', inherited', hinherited', own', hown', rfl⟩ := h'
        obtain rfl := baseRecords_unique hrecords hrecords'
        exact (collect_sameData (fun _ _ _ h h' => ih rfl h h') hinherited hinherited').append
          (emitMembers_sameData hs hown hown')
      | _ =>
        simp only [hkind, gives_bind, gives_pure, exists_eq_left'] at h h'
        obtain ⟨own, hown, rfl⟩ := h
        obtain ⟨own', hown', rfl⟩ := h'
        exact (SameData.of_no_data rfl rfl).append (emitMembers_sameData hs hown hown')

theorem emitBitUnit_sorted : (emitBitUnit id units isUnion base).Ensures env imports RecordItems.Sorted := by
  unfold emitBitUnit
  split
  · exact .pure (.of_nil rfl)
  · refine (Ensures.forEach fun slot _ => bitProperty_not_data).bind fun properties hproperties => .pure ?_
    exact fun m hm => hproperties m (by simpa [RecordItems.others] using hm)

theorem arrayField_sorted :
    (arrayField id d type element size offset).Ensures env imports RecordItems.Sorted := by
  refine .skip fun m => .skip fun spelled => .skip fun obsolete => .skip fun name => .ite ?_ ?_
  · exact .skip fun _ => .pure (.of_nil rfl)
  · exact .skip fun _ => .pure (List.forall_mem_singleton.mpr rfl)

theorem emitField_sorted : (emitField id d f isUnion).Ensures env imports RecordItems.Sorted := by
  refine .of_gives fun scope items h => ?_
  obtain ⟨offset, -, ⟨element, size, -, h⟩ | ⟨mapped, attrs, -, -, rfl⟩⟩ := emitField_cases h
  · exact h.of_ensures fun _ => arrayField_sorted
  · exact .of_nil rfl

section

theorem emitAnonymous_sorted (hnested : EmitsTypes env nested) :
    (emitAnonymous nested id d isUnion isInherited).Ensures env imports RecordItems.Sorted := by
  refine .of_gives fun scope items h m hm => ?_
  obtain ⟨member, type, types, accessors, -, -, htypes, haccessors, rfl⟩ := emitAnonymous_cases h
  simp only [forwardingAccessors, gives_bind, gives_ast, exists_eq_left] at haccessors
  have hm : m ∈ types ∨ m ∈ accessors := by simpa [RecordItems.others] using hm
  rcases hm with hm | hm
  · exact hnested id scope m (htypes m hm).2
  · exact haccessors.of_ensures (fun _ => forwardFrom_not_data) m hm

theorem emitMember_sorted (hnested : EmitsTypes env nested) :
    (emitMember nested record isUnion isInherited units id).Ensures env imports RecordItems.Sorted := by
  refine .of_gives fun scope items h => ?_
  obtain ⟨d, hd, -⟩ := gives_bind.mp h
  have hcases := emitMember_cases h (gives_decl.mp hd)
  split at hcases
  · exact hcases.of_ensures fun _ => emitBitUnit_sorted
  · exact hcases.of_ensures fun _ => emitField_sorted
  · exact hcases.of_ensures fun _ => emitAnonymous_sorted hnested
  · rcases hcases with rfl | hcases
    · exact .of_nil rfl
    · exact (hcases.of_ensures fun _ => emitOwnMember_no_data).2 hnested

theorem collect_sorted {f : α → Emit RecordItems}
    (hstep : ∀ a, (f a).Ensures env imports RecordItems.Sorted) :
    (collect f as).Ensures env imports RecordItems.Sorted := by
  induction as with
  | nil => exact .pure (.of_nil rfl)
  | cons a as ih =>
    exact (hstep a).bind fun first hfirst => ih.bind fun rest hrest => .pure (hfirst.append hrest)

theorem emitMembers_sorted (hnested : EmitsTypes env nested) :
    (emitMembers nested record isUnion isInherited).Ensures env imports RecordItems.Sorted :=
  .skip fun _ => .skip fun _ => .skip fun _ => collect_sorted fun _ => emitMember_sorted hnested

theorem flattenFrom_sorted (hnested : EmitsTypes env nested) {base : DeclId} :
    (flattenFrom nested fuel base).Ensures env imports RecordItems.Sorted := by
  induction fuel generalizing base with
  | zero => exact .ofResult fun _ h => by cases h
  | succ fuel ih =>
    refine .skip fun symbols => .skip fun d => ?_
    split
    · refine .skip fun records => (collect_sorted fun _ => ih).bind fun inherited hinherited => ?_
      exact (emitMembers_sorted hnested).bind fun own hown => .pure (hinherited.append hown)
    · refine (emitMembers_sorted hnested).bind fun own hown => .pure ?_
      exact RecordItems.Sorted.append (.of_nil rfl) hown

end

end

end Interop.Binding

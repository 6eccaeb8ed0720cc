import Interop.Native.Format.Describe
import Interop.Native.Format.Read
import Interop.Proofs.Completion.References
import Interop.Proofs.Json.Printing

/-!
# Stored syntax trees

Describing and reading a syntax tree are written apart from each other; `Datum.Keeps` is what they have to
agree on: the document of a description can be printed, and the value is read from it. Every kind of node
keeps its value, as long as the positions in it are words of 32 bits.
-/

namespace Interop

open Json

namespace Datum

variable {α β : Type}
variable {fields : List (String × Datum)} {d : Datum} {form name : String} {names : List String}
variable {read : Json → Option α} {a : α} {n : Nat}

/-- The document of a description can be printed, and the value is read from it. -/
structure Keeps (d : Datum) (read : Json → Option α) (a : α) : Prop where
  plain : d.json.IsPlain
  reads : read d.json = some a

/-! ## Scalars -/

theorem keeps_text (s : String) : Keeps (.text s) asText s :=
  ⟨.text s, rfl⟩

theorem keeps_flag (b : Bool) : Keeps (.flag b) asBool b :=
  ⟨.bool b, rfl⟩

theorem Keeps.map (h : Keeps d read a) (f : α → β) : Keeps d (fun v => (read v).map f) (f a) :=
  ⟨h.plain, by rw [h.reads, Option.map_some]⟩

theorem keeps_int {n : Int} (hlow : low ≤ n) (hhigh : n < high) (hleast : Int64.minValue.toInt ≤ low)
    (hgreatest : high ≤ UInt64.size) : Keeps (.number n) (asIntWithin low high) n :=
  ⟨.int (Int.le_trans hleast hlow) (Int.lt_of_lt_of_le hhigh hgreatest),
    by simp [json, asIntWithin, hlow, hhigh]⟩

theorem keeps_nat {bound : Nat} (h : n < bound) (hbound : bound ≤ UInt64.size) :
    Keeps (.nat n) (asNatBelow bound) n :=
  (keeps_int (Int.natCast_nonneg n) (Int.ofNat_lt.mpr h) (by decide) (Int.ofNat_le.mpr hbound)).map
    Int.toNat

theorem keeps_uint8 (n : UInt8) : Keeps (.nat n.toNat) asUInt8 n := by
  have h := (keeps_nat n.toNat_lt (by decide)).map UInt8.ofNat
  rw [UInt8.ofNat_toNat] at h
  exact h

theorem keeps_uint32 (n : UInt32) : Keeps (.nat n.toNat) asUInt32 n := by
  have h := (keeps_nat n.toNat_lt (by decide)).map UInt32.ofNat
  rw [UInt32.ofNat_toNat] at h
  exact h

theorem keeps_uint64 (n : UInt64) : Keeps (.nat n.toNat) asUInt64 n := by
  have h := (keeps_nat n.toNat_lt (by decide)).map UInt64.ofNat
  rw [UInt64.ofNat_toNat] at h
  exact h

theorem keeps_int64 (n : Int64) : Keeps (.number n.toInt) asInt64 n := by
  have h := (keeps_int n.minValue_le_toInt (Int.lt_add_one_of_le n.toInt_le) (by decide)
    (by decide)).map Int64.ofInt
  rw [Int64.ofInt_toInt] at h
  exact h

/-! ## Several values -/

theorem jsonItems_eq (items : List Datum) : jsonItems items = items.map json := by
  induction items with
  | nil => rfl
  | cons d items ih => rw [jsonItems, ih, List.map_cons]

theorem jsonFields_eq (fields : List (String × Datum)) :
    jsonFields fields = fields.map fun f => (some f.1, f.2.json) := by
  induction fields with
  | nil => rfl
  | cons field fields ih => rw [jsonFields, ih, List.map_cons]

theorem keeps_option {f : α → Datum} {o : Option α} (h : ∀ a ∈ o, Keeps (f a) read a)
    (hnull : ∀ a ∈ o, asOption read (f a).json = (read (f a).json).map some) :
    Keeps (.option f o) (asOption read) o := by
  cases o with
  | none => exact ⟨.null, rfl⟩
  | some a =>
    -- A value that were stored as null itself could not be told from a missing one.
    refine ⟨(h a rfl).plain, ?_⟩
    show asOption read (f a).json = _
    rw [hnull a rfl, (h a rfl).reads, Option.map_some]

theorem keeps_optionText (o : Option String) : Keeps (.option .text o) (asOption asText) o :=
  keeps_option (fun s _ => keeps_text s) fun _ _ => rfl

theorem keeps_listOf {f : α → Datum} {as : List α} (h : ∀ a ∈ as, Keeps (f a) read a) :
    Keeps (.listOf f as) (asList read) as := by
  have hjson : (Datum.listOf f as).json = .arr (as.map fun a => (f a).json) := by
    simp [Datum.listOf, json, jsonItems_eq, Function.comp_def]
  constructor
  · rw [hjson]
    refine .arr fun v hv => ?_
    obtain ⟨a, ha, rfl⟩ := List.mem_map.mp hv
    exact (h a ha).plain
  · rw [hjson, asList]
    clear hjson
    induction as with
    | nil => rfl
    | cons a as ih =>
      rw [List.forall_mem_cons] at h
      rw [List.map_cons, List.mapM_cons, h.1.reads, ih h.2]
      rfl

/-! ## Named parts -/

def slotsOf (fields : List (String × Datum)) : Slots :=
  ⟨fields.map fun f => (f.1, f.2.json)⟩

theorem knownFields_jsonFields (h : ∀ f ∈ fields, f.1 ∈ names) :
    knownFields names (jsonFields fields) = (slotsOf fields).fields := by
  induction fields with
  | nil => rfl
  | cons field fields ih =>
    rw [List.forall_mem_cons] at h
    rw [jsonFields, knownFields, if_pos h.1, ih h.2]
    rfl

theorem slots_jsonFields (hnames : fields.map Prod.fst = names) (hnodup : names.Nodup) :
    slots names (.obj (jsonFields fields)) = some (slotsOf fields) := by
  subst hnames
  have hknown : knownFields (fields.map Prod.fst) (jsonFields fields) = (slotsOf fields).fields :=
    knownFields_jsonFields fun f hf => List.mem_map.mpr ⟨f, hf, rfl⟩
  have hkeys : (slotsOf fields).fields.map Prod.fst = fields.map Prod.fst := by
    simp [slotsOf, Function.comp_def]
  -- The reader refuses repeated names, and names that are no texts.
  have hnamed : (jsonFields fields).any (·.1.isNone) = false := by
    simp [jsonFields_eq]
  simp [slots, hknown, hkeys, hnodup, hnamed]

theorem isPlain_fields (h : ∀ f ∈ fields, f.2.json.IsPlain) : (Json.obj (jsonFields fields)).IsPlain := by
  rw [jsonFields_eq]
  refine .obj ?_ ?_ <;> simp only [List.mem_map] <;> rintro _ ⟨f, hf, rfl⟩
  · exact ⟨f.1, rfl⟩
  · exact h f hf

theorem lookup_slotsOf (h : fields.lookup name = some d) :
    (slotsOf fields).fields.lookup name = some d.json := by
  induction fields with
  | nil => cases h
  | cons field fields ih =>
    rw [List.lookup_cons] at h
    show List.lookup name ((field.1, field.2.json) :: (slotsOf fields).fields) = _
    rw [List.lookup_cons]
    split at h
    · rw [Option.some.inj h]
    · exact ih h

/-- The value is made of parts that can be printed. -/
structure Fills (parts : List (String × Datum)) (made : Option α) (a : α) : Prop where
  plain : ∀ f ∈ parts, f.2.json.IsPlain
  made : made = some a

theorem Fills.nil : Fills [] (some a) a :=
  ⟨by simp, rfl⟩

theorem Fills.swap {x y : String × Datum} {made : Option α} (h : Fills [x, y] made a) :
    Fills [y, x] made a :=
  ⟨by simpa [and_comm] using h.plain, h.made⟩

section

variable {read : Json → Option α} {a : α} {f : α → Option β} {b : β} {parts : List (String × Datum)}

theorem Keeps.need (h : d.Keeps read a) (hd : fields.lookup name = some d) (hparts : Fills parts (f a) b) :
    Fills ((name, d) :: parts) (((slotsOf fields).need name read).bind f) b := by
  refine ⟨List.forall_mem_cons.mpr ⟨h.plain, hparts.plain⟩, ?_⟩
  rw [Slots.need, lookup_slotsOf hd, Option.bind_some, h.reads]
  exact hparts.made

theorem Keeps.orElse {default : α} (h : d.Keeps read a) (hd : fields.lookup name = some d)
    (hparts : Fills parts (f a) b) :
    Fills ((name, d) :: parts) (((slotsOf fields).orElse name default read).bind f) b := by
  refine ⟨List.forall_mem_cons.mpr ⟨h.plain, hparts.plain⟩, ?_⟩
  simp only [Slots.orElse, lookup_slotsOf hd, h.reads]
  exact hparts.made

end

theorem keeps_record {a : α} (hnames : fields.map Prod.fst = names) (hnodup : names.Nodup)
    (h : Fills fields (make (slotsOf fields)) a) :
    Keeps (.record name fields) (fun v => (slots names v).bind make) a :=
  ⟨isPlain_fields h.plain, by rw [json, slots_jsonFields hnames hnodup, Option.bind_some, h.made]⟩

/-! ## Forms -/

theorem keeps_bare {read : Json → Option α} {a : α} (h : read (.str form) = some a) :
    Keeps (.bare form) read a :=
  ⟨.text form, h⟩

theorem isPlain_form {v : Json} (h : v.IsPlain) : (Json.obj [(some form, v)]).IsPlain :=
  .obj (by simp) (by simpa using h)

theorem Keeps.tagged {read inner : Json → Option α} {a : α} (h : d.Keeps inner a)
    (hread : ∀ v, read (.obj [(some form, v)]) = inner v) : Keeps (.tagged form d) read a :=
  ⟨isPlain_form h.plain, by rw [json, hread, h.reads]⟩

theorem Keeps.fielded {read inner : Json → Option α} {a : α} (h : Keeps (.record form fields) inner a)
    (hread : ∀ v, read (.obj [(some form, v)]) = inner v) : Keeps (.fielded form fields) read a :=
  ⟨isPlain_form h.plain, by rw [json, hread, ← h.reads, json]⟩

theorem keeps_parts {a : α} {read : Json → Option α}
    (hread : ∀ v, read (.obj [(some form, v)]) = (slots names v).bind make)
    (hnames : fields.map Prod.fst = names) (hnodup : names.Nodup)
    (h : Fills fields (make (slotsOf fields)) a) : Keeps (.fielded form fields) read a :=
  (keeps_record hnames hnodup h).fielded hread

theorem keeps_node {a : α} {wrap : α → β} {read : Json → Option β} {make : Slots → Option α}
    (hread : ∀ v, read (.obj [(some form, v)]) = ((slots names v).bind make).map wrap)
    (hnames : fields.map Prod.fst = names) (hnodup : names.Nodup)
    (h : Fills fields (make (slotsOf fields)) a) : Keeps (.fielded form fields) read (wrap a) :=
  ((keeps_record hnames hnodup h).map wrap).fielded hread

theorem Keeps.part {read : Json → Option β} {inner : Json → Option α} {a : α} {b : β} {make : α → Option β}
    (h : d.Keeps inner a) (hread : ∀ v, read (.obj [(some form, v)]) = (slots [name] v).bind fun s =>
      (s.need name inner).bind make) (hmake : make a = some b) : Keeps (.fielded form [(name, d)]) read b :=
  keeps_parts hread rfl (List.nodup_singleton name) (h.need (by simp) ⟨by simp, hmake⟩)

end Datum

open Datum

theorem Location.keeps (l : Location) : l.describe.Keeps Location.read l := by
  have file := keeps_optionText l.file
  have line := keeps_uint32 l.line
  have column := keeps_uint32 l.column
  exact keeps_record rfl (by decide) <| file.orElse rfl <| line.orElse rfl <| column.orElse rfl .nil

namespace Native

variable {α : Type}

/-! ## Names and positions -/

def NamesAll {α : Type} [DecidableEq α] (table : List (String × α)) : Prop :=
  ∀ a, table.lookup (storedName table a) = some a

theorem Builtin.namesAll : NamesAll Builtin.names := by rintro ⟨⟩ <;> rfl
theorem Convention.namesAll : NamesAll Convention.names := by rintro ⟨⟩ <;> rfl
theorem RecordTag.namesAll : NamesAll RecordTag.names := by rintro ⟨⟩ <;> rfl
theorem Linkage.namesAll : NamesAll Linkage.names := by rintro ⟨⟩ <;> rfl
theorem Storage.namesAll : NamesAll Storage.names := by rintro ⟨⟩ <;> rfl
theorem Access.namesAll : NamesAll Access.names := by rintro ⟨⟩ <;> rfl
theorem binaryOp_namesAll : NamesAll binaryOpNames := by rintro ⟨⟩ <;> rfl
theorem unaryOp_namesAll : NamesAll unaryOpNames := by rintro ⟨⟩ <;> rfl
theorem CastKind.namesAll : NamesAll CastKind.names := by rintro ⟨⟩ <;> rfl
theorem CastStyle.namesAll : NamesAll CastStyle.names := by rintro ⟨⟩ <;> rfl

theorem NamesAll.keeps [DecidableEq α] {table : List (String × α)} (h : NamesAll table) (a : α) :
    (describeName table a).Keeps (asName table) a :=
  keeps_bare (by simp [asName, form, str, h a, Json.bare])

def Ref.index : Ref → Nat
  | .decl id => id.index
  | .stmt id => id.index
  | .expr id => id.index
  | .type id => id.index

def Ref.IsWord (r : Ref) : Prop :=
  r.index < UInt32.size

instance (r : Ref) : Decidable r.IsWord :=
  inferInstanceAs (Decidable (_ < _))

theorem keeps_index {n : Nat} (h : n < UInt32.size) (name : String) (make : Nat → α) :
    (Datum.wrapper name (.nat n)).Keeps (fun v => (readIndex v).map make) (make n) :=
  have keeps := (keeps_nat h (by decide)).map make
  ⟨keeps.plain, keeps.reads⟩

theorem DeclId.keeps {id : DeclId} (h : (Ref.decl id).IsWord) : id.describe.Keeps DeclId.read id :=
  keeps_index h "DeclId" DeclId.mk

theorem StmtId.keeps {id : StmtId} (h : (Ref.stmt id).IsWord) : id.describe.Keeps StmtId.read id :=
  keeps_index h "StmtId" StmtId.mk

theorem ExprId.keeps {id : ExprId} (h : (Ref.expr id).IsWord) : id.describe.Keeps ExprId.read id :=
  keeps_index h "ExprId" ExprId.mk

theorem TypeId.keeps {id : TypeId} (h : (Ref.type id).IsWord) : id.describe.Keeps TypeId.read id :=
  keeps_index h "TypeId" TypeId.mk

/-! ## Types -/

theorem Prototype.keeps {proto : Prototype} (h : ∀ x ∈ (TypeKind.function proto).refs, x.IsWord) :
    (TypeKind.function proto).describe.Keeps TypeKind.read (.function proto) := by
  simp only [TypeKind.refs, List.forall_mem_cons, List.forall_mem_map] at h
  have result := TypeId.keeps h.1
  have params := keeps_listOf fun id hid => TypeId.keeps (h.2 id hid)
  have variadic := keeps_flag proto.isVariadic
  have convention :=
    keeps_option (fun x (_ : x ∈ proto.convention) => Convention.namesAll.keeps x) fun _ _ => rfl
  exact keeps_node (fun _ => rfl) rfl (by decide) <| result.need rfl <| params.need rfl <|
    variadic.orElse rfl <| convention.orElse rfl .nil

theorem TypeKind.keeps {k : TypeKind} (h : ∀ r ∈ k.refs, r.IsWord) : k.describe.Keeps TypeKind.read k := by
  simp only [TypeKind.refs] at h
  cases k with
  | builtin b => exact ((Builtin.namesAll.keeps b).map TypeKind.builtin).tagged fun _ => rfl
  | pointer | lvalueReference | rvalueReference | incompleteArray =>
    exact (TypeId.keeps (h _ (.head _))).part (fun _ => rfl) rfl
  | constantArray t n =>
    exact keeps_parts (fun _ => rfl) rfl (by decide) <| (TypeId.keeps (h _ (.head _))).need rfl <|
      (keeps_uint64 n).need rfl .nil
  | function proto => exact Prototype.keeps h
  | record | enum => exact (DeclId.keeps (h _ (.head _))).part (fun _ => rfl) rfl
  | typedef id t =>
    have underlying := TypeId.keeps (h _ (.tail _ (.head _)))
    exact keeps_parts (fun _ => rfl) rfl (by decide) <| (DeclId.keeps (h _ (.head _))).need rfl <|
      underlying.need rfl .nil
  | specialization template o =>
    simp only [List.forall_mem_map, Option.mem_toList] at h
    have name := keeps_text template
    have canonical := keeps_option (fun id hid => TypeId.keeps (h id hid)) fun _ _ => rfl
    exact keeps_parts (fun _ => rfl) rfl (by decide) <| name.need rfl <| canonical.orElse rfl .nil
  | unexposed => exact keeps_bare rfl

theorem Ty.keeps {t : Ty} (h : ∀ r ∈ t.kind.refs, r.IsWord) : t.describe.Keeps Ty.read t := by
  have kind := TypeKind.keeps h
  have spelling := keeps_text t.spelling
  have size := keeps_option (fun n (_ : n ∈ t.size) => keeps_uint64 n) fun _ _ => rfl
  have const := keeps_flag t.isConst
  exact keeps_record rfl (by decide) <| kind.need rfl <| spelling.need rfl <| size.orElse rfl <|
    const.orElse rfl .nil

/-! ## Declarations -/

theorem Deprecation.keeps (d : Deprecation) : d.describe.Keeps Deprecation.read d := by
  have message := keeps_optionText d.message
  exact keeps_record rfl (by decide) <| message.orElse rfl .nil

theorem Attributes.keeps (a : Attributes) : a.describe.Keeps Attributes.read a := by
  have deprecated := keeps_option (fun d (_ : d ∈ a.deprecated) => d.keeps) fun _ _ => rfl
  have label := keeps_optionText a.asmLabel
  have packed := keeps_option (fun n (_ : n ∈ a.packed) => keeps_uint32 n) fun _ _ => rfl
  exact keeps_record rfl (by decide) <| deprecated.orElse rfl <| label.orElse rfl <| packed.orElse rfl .nil

theorem Base.keeps {b : Base} (h : (Ref.type b.type).IsWord) : b.describe.Keeps Base.read b := by
  have type := TypeId.keeps h
  have virtual := keeps_flag b.isVirtual
  have access := Access.namesAll.keeps b.access
  exact keeps_record rfl (by decide) <| type.need rfl <| virtual.orElse rfl <| access.orElse rfl .nil

theorem Record.keeps {r : Record} (h : ∀ x ∈ (DeclKind.record r).refs, x.IsWord) :
    (DeclKind.record r).describe.Keeps DeclKind.read (.record r) := by
  simp only [DeclKind.refs, List.forall_mem_append, List.forall_mem_map] at h
  have tag := RecordTag.namesAll.keeps r.tag
  have definition := keeps_flag r.isDefinition
  have anonymous := keeps_flag r.isAnonymous
  have bases := keeps_listOf fun b hb => Base.keeps (h.1 b hb)
  have members := keeps_listOf fun id hid => DeclId.keeps (h.2 id hid)
  exact keeps_node (fun _ => rfl) rfl (by decide) <| tag.need rfl <| definition.orElse rfl <|
    anonymous.orElse rfl <| bases.orElse rfl <| members.orElse rfl .nil

theorem Field.keeps {f : Field} (h : ∀ x ∈ (DeclKind.field f).refs, x.IsWord) :
    (DeclKind.field f).describe.Keeps DeclKind.read (.field f) := by
  simp only [DeclKind.refs] at h
  have type := TypeId.keeps (h _ (.head _))
  have width := keeps_option (fun n (_ : n ∈ f.bitWidth) => keeps_uint32 n) fun _ _ => rfl
  have offset := keeps_option (fun n (_ : n ∈ f.offsetBits) => keeps_uint64 n) fun _ _ => rfl
  exact keeps_node (fun _ => rfl) rfl (by decide) <| type.need rfl <| width.orElse rfl <|
    offset.orElse rfl .nil

theorem Enum.keeps {e : Enum} (h : ∀ x ∈ (DeclKind.enum e).refs, x.IsWord) :
    (DeclKind.enum e).describe.Keeps DeclKind.read (.enum e) := by
  simp only [DeclKind.refs, List.forall_mem_cons, List.forall_mem_map] at h
  have type := TypeId.keeps h.1
  have isScoped := keeps_flag e.isScoped
  have constants := keeps_listOf fun id hid => DeclId.keeps (h.2 id hid)
  exact keeps_node (fun _ => rfl) rfl (by decide) <| type.need rfl <| isScoped.orElse rfl <|
    constants.orElse rfl .nil

theorem Function.keeps {f : Function} (h : ∀ x ∈ (DeclKind.function f).refs, x.IsWord) :
    (DeclKind.function f).describe.Keeps DeclKind.read (.function f) := by
  simp only [DeclKind.refs, List.cons_append, List.forall_mem_cons, List.forall_mem_append,
    List.forall_mem_map, Option.mem_toList] at h
  have type := TypeId.keeps h.1
  have params := keeps_listOf fun id hid => DeclId.keeps (h.2.1 id hid)
  have body := keeps_option (fun id hid => StmtId.keeps (h.2.2 id hid)) fun _ _ => rfl
  have linkage := Linkage.namesAll.keeps f.linkage
  have storage := Storage.namesAll.keeps f.storage
  have mangled := keeps_optionText f.mangledName
  exact keeps_node (fun _ => rfl) rfl (by decide) <| type.need rfl <| params.orElse rfl <| body.orElse rfl <|
    linkage.orElse rfl <| storage.orElse rfl <| mangled.orElse rfl .nil

theorem Method.keeps {m : Method} (h : ∀ x ∈ (DeclKind.method m).refs, x.IsWord) :
    (DeclKind.method m).describe.Keeps DeclKind.read (.method m) := by
  simp only [DeclKind.refs, List.cons_append, List.forall_mem_cons, List.forall_mem_append,
    List.forall_mem_map, Option.mem_toList] at h
  have type := TypeId.keeps h.1
  have params := keeps_listOf fun id hid => DeclId.keeps (h.2.1 id hid)
  have body := keeps_option (fun id hid => StmtId.keeps (h.2.2 id hid)) fun _ _ => rfl
  have static := keeps_flag m.isStatic
  have virtual := keeps_flag m.isVirtual
  have isPure := keeps_flag m.isPure
  have mangled := keeps_optionText m.mangledName
  exact keeps_node (fun _ => rfl) rfl (by decide) <| type.need rfl <| params.orElse rfl <| body.orElse rfl <|
    static.orElse rfl <| virtual.orElse rfl <| isPure.orElse rfl <| mangled.orElse rfl .nil

theorem Var.keeps {v : Var} (h : ∀ x ∈ (DeclKind.var v).refs, x.IsWord) :
    (DeclKind.var v).describe.Keeps DeclKind.read (.var v) := by
  simp only [DeclKind.refs, List.forall_mem_cons, List.forall_mem_map, Option.mem_toList] at h
  have type := TypeId.keeps h.1
  have init := keeps_option (fun id hid => ExprId.keeps (h.2 id hid)) fun _ _ => rfl
  have storage := Storage.namesAll.keeps v.storage
  exact keeps_node (fun _ => rfl) rfl (by decide) <| type.need rfl <| init.orElse rfl <|
    storage.orElse rfl .nil

theorem DeclKind.keeps {k : DeclKind} (h : ∀ r ∈ k.refs, r.IsWord) : k.describe.Keeps DeclKind.read k := by
  simp only [DeclKind.refs] at h
  cases k with
  | scope decls =>
    simp only [List.forall_mem_map] at h
    exact (keeps_listOf fun id hid => DeclId.keeps (h id hid)).part (fun _ => rfl) rfl
  | linkageSpec l decls =>
    simp only [List.forall_mem_map] at h
    have members := keeps_listOf fun id hid => DeclId.keeps (h id hid)
    exact keeps_parts (fun _ => rfl) rfl (by decide) <| (Linkage.namesAll.keeps l).need rfl <|
      members.need rfl .nil
  | record r => exact Record.keeps h
  | field f => exact Field.keeps h
  | enum e => exact Enum.keeps h
  | constant n o =>
    simp only [List.forall_mem_map, Option.mem_toList] at h
    have value := keeps_int64 n
    have init := keeps_option (fun id hid => ExprId.keeps (h id hid)) fun _ _ => rfl
    exact keeps_parts (fun _ => rfl) rfl (by decide) <| value.need rfl <| init.orElse rfl .nil
  | function f => exact Function.keeps h
  | method m => exact Method.keeps h
  | constructor ids o =>
    simp only [List.forall_mem_append, List.forall_mem_map, Option.mem_toList] at h
    have params := keeps_listOf fun id hid => DeclId.keeps (h.1 id hid)
    have body := keeps_option (fun id hid => StmtId.keeps (h.2 id hid)) fun _ _ => rfl
    exact keeps_parts (fun _ => rfl) rfl (by decide) <| params.orElse rfl <| body.orElse rfl .nil
  | destructor b o =>
    simp only [List.forall_mem_map, Option.mem_toList] at h
    have virtual := keeps_flag b
    have body := keeps_option (fun id hid => StmtId.keeps (h id hid)) fun _ _ => rfl
    exact keeps_parts (fun _ => rfl) rfl (by decide) <| virtual.orElse rfl <| body.orElse rfl .nil
  | param | typedef => exact (TypeId.keeps (h _ (.head _))).part (fun _ => rfl) rfl
  | var v => exact Var.keeps h
  | other kind => exact (keeps_text kind).part (fun _ => rfl) rfl

theorem Decl.keeps {d : Decl} (hparent : ∀ id ∈ d.parent, (Ref.decl id).IsWord)
    (h : ∀ r ∈ d.kind.refs, r.IsWord) : d.describe.Keeps Decl.read d := by
  have kind := DeclKind.keeps h
  have name := keeps_text d.name
  have parent := keeps_option (fun id hid => DeclId.keeps (hparent id hid)) fun _ _ => rfl
  have location := d.location.keeps
  have attrs := d.attrs.keeps
  exact keeps_record rfl (by decide) <| kind.need rfl <| name.orElse rfl <| parent.orElse rfl <|
    location.orElse rfl <| attrs.orElse rfl .nil

/-! ## Statements -/

theorem StmtKind.keeps {k : StmtKind} (h : ∀ r ∈ k.refs, r.IsWord) : k.describe.Keeps StmtKind.read k := by
  simp only [StmtKind.refs] at h
  cases k with
  | compound children =>
    simp only [List.forall_mem_map] at h
    exact ((keeps_listOf fun id hid => StmtId.keeps (h id hid)).map StmtKind.compound).tagged fun _ => rfl
  | decls ds =>
    simp only [List.forall_mem_map] at h
    exact ((keeps_listOf fun id hid => DeclId.keeps (h id hid)).map StmtKind.decls).tagged fun _ => rfl
  | expr value => exact ((ExprId.keeps (h _ (.head _))).map StmtKind.expr).tagged fun _ => rfl
  | ret o =>
    simp only [List.forall_mem_map, Option.mem_toList] at h
    have value := keeps_option (fun id hid => ExprId.keeps (h id hid)) fun _ _ => rfl
    exact (value.map StmtKind.ret).tagged fun _ => rfl
  | ifElse c t o =>
    simp only [List.cons_append, List.nil_append, List.forall_mem_cons, List.forall_mem_map,
      Option.mem_toList] at h
    have cond := ExprId.keeps h.1
    have thenBranch := StmtId.keeps h.2.1
    have elseBranch := keeps_option (fun id hid => StmtId.keeps (h.2.2 id hid)) fun _ _ => rfl
    exact keeps_parts (fun _ => rfl) rfl (by decide) <| cond.need rfl <| thenBranch.need rfl <|
      elseBranch.orElse rfl .nil
  | whileLoop | switch | caseLabel =>
    have body := StmtId.keeps (h _ (.tail _ (.head _)))
    exact keeps_parts (fun _ => rfl) rfl (by decide) <| (ExprId.keeps (h _ (.head _))).need rfl <|
      body.need rfl .nil
  | doLoop b c =>
    -- The body is written first, and the condition is read first.
    have cond := ExprId.keeps (h _ (.head _))
    have body := StmtId.keeps (h _ (.tail _ (.head _)))
    exact keeps_parts (fun _ => rfl) rfl (by decide) <| .swap <| cond.need rfl <| body.need rfl .nil
  | forLoop i c n b =>
    simp only [List.forall_mem_append, List.forall_mem_map, Option.mem_toList, List.forall_mem_singleton] at h
    have init := keeps_option (fun id hid => StmtId.keeps (h.1.1.1 id hid)) fun _ _ => rfl
    have cond := keeps_option (fun id hid => ExprId.keeps (h.1.1.2 id hid)) fun _ _ => rfl
    have inc := keeps_option (fun id hid => ExprId.keeps (h.1.2 id hid)) fun _ _ => rfl
    have body := StmtId.keeps h.2
    exact keeps_parts (fun _ => rfl) rfl (by decide) <| init.orElse rfl <| cond.orElse rfl <|
      inc.orElse rfl <| body.need rfl .nil
  | defaultLabel body => exact (StmtId.keeps (h _ (.head _))).part (fun _ => rfl) rfl
  | breakOut | continueLoop | empty => exact keeps_bare rfl
  | other kind => exact (keeps_text kind).part (fun _ => rfl) rfl

theorem Stmt.keeps {s : Stmt} (h : ∀ r ∈ s.kind.refs, r.IsWord) : s.describe.Keeps Stmt.read s := by
  have kind := StmtKind.keeps h
  have location := s.location.keeps
  exact keeps_record rfl (by decide) <| kind.need rfl <| location.orElse rfl .nil

/-! ## Expressions -/

theorem ExprKind.keeps {k : ExprKind} (h : ∀ r ∈ k.refs, r.IsWord) : k.describe.Keeps ExprKind.read k := by
  simp only [ExprKind.refs] at h
  cases k with
  | integer | floating | other => exact (keeps_text _).part (fun _ => rfl) rfl
  | character value => exact (keeps_uint32 value).part (fun _ => rfl) rfl
  | string s width =>
    have value := keeps_text s
    have charWidth := keeps_uint8 width
    exact keeps_parts (fun _ => rfl) rfl (by decide) <| value.need rfl <| charWidth.orElse rfl .nil
  | bool value => exact ((keeps_flag value).map ExprKind.bool).tagged fun _ => rfl
  | nullPtr | valueInit => exact keeps_bare rfl
  | declRef decl => exact (DeclId.keeps (h _ (.head _))).part (fun _ => rfl) rfl
  | paren inner => exact ((ExprId.keeps (h _ (.head _))).map ExprKind.paren).tagged fun _ => rfl
  | unary op operand =>
    exact keeps_parts (fun _ => rfl) rfl (by decide) <| (unaryOp_namesAll.keeps op).need rfl <|
      (ExprId.keeps (h _ (.head _))).need rfl .nil
  | binary o l r =>
    have op := binaryOp_namesAll.keeps o
    have lhs := ExprId.keeps (h _ (.head _))
    have rhs := ExprId.keeps (h _ (.tail _ (.head _)))
    exact keeps_parts (fun _ => rfl) rfl (by decide) <| op.need rfl <| lhs.need rfl <| rhs.need rfl .nil
  | conditional c t e =>
    have cond := ExprId.keeps (h _ (.head _))
    have thenExpr := ExprId.keeps (h _ (.tail _ (.head _)))
    have elseExpr := ExprId.keeps (h _ (.tail _ (.tail _ (.head _))))
    exact keeps_parts (fun _ => rfl) rfl (by decide) <| cond.need rfl <| thenExpr.need rfl <|
      elseExpr.need rfl .nil
  | call f xs =>
    simp only [List.forall_mem_cons, List.forall_mem_map] at h
    have callee := ExprId.keeps h.1
    have args := keeps_listOf fun id hid => ExprId.keeps (h.2 id hid)
    exact keeps_parts (fun _ => rfl) rfl (by decide) <| callee.need rfl <| args.orElse rfl .nil
  | member b m arrow =>
    have base := ExprId.keeps (h _ (.head _))
    have target := DeclId.keeps (h _ (.tail _ (.head _)))
    have isArrow := keeps_flag arrow
    exact keeps_parts (fun _ => rfl) rfl (by decide) <| base.need rfl <| target.need rfl <|
      isArrow.orElse rfl .nil
  | subscript base index =>
    have index := ExprId.keeps (h _ (.tail _ (.head _)))
    exact keeps_parts (fun _ => rfl) rfl (by decide) <| (ExprId.keeps (h _ (.head _))).need rfl <|
      index.need rfl .nil
  | implicitCast kind operand =>
    exact keeps_parts (fun _ => rfl) rfl (by decide) <| (CastKind.namesAll.keeps kind).need rfl <|
      (ExprId.keeps (h _ (.head _))).need rfl .nil
  | explicitCast s k e =>
    have style := CastStyle.namesAll.keeps s
    have kind := CastKind.namesAll.keeps k
    have operand := ExprId.keeps (h _ (.head _))
    exact keeps_parts (fun _ => rfl) rfl (by decide) <| style.need rfl <| kind.need rfl <|
      operand.need rfl .nil
  | initList elements =>
    simp only [List.forall_mem_map] at h
    exact ((keeps_listOf fun id hid => ExprId.keeps (h id hid)).map ExprKind.initList).tagged fun _ => rfl
  | thisPointer b =>
    have implicit := keeps_flag b
    exact keeps_parts (fun _ => rfl) rfl (by decide) <| implicit.orElse rfl .nil
  | sizeOf arg => exact (TypeId.keeps (h _ (.head _))).part (fun _ => rfl) rfl

theorem Expr.keeps {e : Expr} (htype : (Ref.type e.type).IsWord) (h : ∀ r ∈ e.kind.refs, r.IsWord) :
    e.describe.Keeps Expr.read e := by
  have kind := ExprKind.keeps h
  have type := TypeId.keeps htype
  have location := e.location.keeps
  exact keeps_record rfl (by decide) <| kind.need rfl <| type.need rfl <| location.orElse rfl .nil

/-! ## Trees -/

namespace Ast

variable {ast : Ast}

/-- All positions that the nodes of a tree refer to are words of 32 bits. -/
def HasWords (ast : Ast) : Prop :=
  ∀ r ∈ ast.references, r.target.IsWord

instance (ast : Ast) : Decidable ast.HasWords :=
  inferInstanceAs (Decidable (∀ r ∈ ast.references, r.target.IsWord))

theorem isWord_of_mem_arena {category : String} {detail : α → String} {refs : α → List Ref} {nodes : Array α}
    (h : ∀ r ∈ arenaReferences category detail refs nodes, r.target.IsWord) {node : α}
    (hnode : node ∈ nodes.toList) {r : Ref} (hr : r ∈ refs node) : r.IsWord := by
  obtain ⟨x, hx, rfl⟩ := mem_arenaReferences.mpr ⟨node, by simpa using hnode, hr⟩
  exact h x hx

theorem keeps (h : ast.HasWords) : ast.describe.Keeps Ast.read ast := by
  simp only [HasWords, references, List.forall_mem_append, List.forall_mem_map] at h
  obtain ⟨⟨⟨⟨htop, hdecls⟩, hstmts⟩, hexprs⟩, htypes⟩ := h
  have file := keeps_text ast.file
  have topLevel := keeps_listOf fun id hid => DeclId.keeps (htop id hid)
  -- The references of a node are among those of its arena.
  have decls := keeps_listOf fun d (hd : d ∈ ast.decls.toList) =>
    Decl.keeps (fun id hid => isWord_of_mem_arena hdecls hd (by simp [Option.mem_def.mp hid]))
      (fun r hr => isWord_of_mem_arena hdecls hd (List.mem_append_right _ hr))
  have stmts := keeps_listOf fun s (hs : s ∈ ast.stmts.toList) =>
    Stmt.keeps fun r hr => isWord_of_mem_arena hstmts hs hr
  have exprs := keeps_listOf fun e (he : e ∈ ast.exprs.toList) =>
    Expr.keeps (isWord_of_mem_arena hexprs he (.head _))
      fun r hr => isWord_of_mem_arena hexprs he (.tail _ hr)
  have types := keeps_listOf fun t (ht : t ∈ ast.types.toList) =>
    Ty.keeps fun r hr => isWord_of_mem_arena htypes ht hr
  exact keeps_record rfl (by decide) <| file.need rfl <| topLevel.need rfl <| decls.need rfl <|
    stmts.orElse rfl <| exprs.orElse rfl <| types.need rfl .nil

theorem parse_document_store (hwords : ast.HasWords) : Json.parse ast.store = some ast.describe.json :=
  Json.parse_pretty (keeps hwords).plain

theorem parse_store (hvalid : ast.Valid) (hwords : ast.HasWords) : Ast.parse ast.store = .ok ast := by
  rw [Ast.parse, parse_document_store hwords, Option.bind_some, (keeps hwords).reads]
  simp only [firstMissing?_eq_none_iff.mpr hvalid]

/-- **A stored tree is read back**, and the document of its description is parsed from its text. -/
theorem stored_tree_reads_back (hvalid : ast.Valid) (hwords : ast.HasWords) :
    Json.parse ast.store = some ast.describe.json ∧ Ast.parse ast.store = .ok ast :=
  ⟨parse_document_store hwords, parse_store hvalid hwords⟩

/-- A tree whose texts have quotes, breaks, escapes and characters outside the basic plane. -/
def labels : Ast where
  file := "src\\\"labels\".h"
  topLevel := [⟨0⟩, ⟨3⟩, ⟨5⟩]
  decls :=
    #[{ kind := .scope [⟨1⟩], name := "gfx" },
      { kind := .record { tag := .struct, members := [⟨2⟩], bases := [{ type := ⟨0⟩, isVirtual := true }] },
        name := "Label", parent := some ⟨0⟩, attrs := { packed := some 4 } },
      { kind := .field { type := ⟨1⟩, bitWidth := some 3, offsetBits := some 18446744073709551615 },
        name := "flags", parent := some ⟨1⟩,
        location := { file := some "labels.h", line := 7, column := 3 } },
      { kind := .enum { integerType := ⟨1⟩, constants := [⟨4⟩] }, name := "Limit" },
      { kind := .constant (-9223372036854775808) (some ⟨1⟩), name := "least", parent := some ⟨3⟩ },
      { kind := .function { type := ⟨4⟩, body := some ⟨0⟩, linkage := .c },
        name := "text", attrs := { deprecated := some { message := some "" } } }]
  stmts := #[{ kind := .compound [⟨1⟩] }, { kind := .ret (some ⟨0⟩) }, { kind := .empty }]
  exprs :=
    #[{ kind := .string "\"Größe\"\n\x1b\t𝄞" 4, type := ⟨3⟩ },
      { kind := .unary .minus ⟨2⟩, type := ⟨1⟩ },
      { kind := .integer "9223372036854775808", type := ⟨1⟩ }]
  types :=
    #[{ kind := .record ⟨1⟩, spelling := "gfx::Label" }, .ofBuiltin .int,
      { kind := .builtin .charS, spelling := "const char", isConst := true, size := some 1 },
      { kind := .pointer ⟨2⟩, spelling := "const char *", size := some 8 },
      { kind := .function { result := ⟨3⟩, params := [], convention := some .c },
        spelling := "const char *()" }]

theorem labels_stored : labels.Valid ∧ labels.HasWords ∧ Ast.parse labels.store = .ok labels :=
  ⟨by decide, by decide, (stored_tree_reads_back (by decide) (by decide)).2⟩

end Ast

end Native

end Interop

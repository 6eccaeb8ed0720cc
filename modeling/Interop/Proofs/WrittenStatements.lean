import Interop.Binding.Snippet
import Interop.Proofs.Emission
import Interop.Proofs.TextLines

/-!
# Statements as they are written

Statements are nested by lines that are four blanks deeper each. A writer that keeps the current depth and
puts out one line after another gives the same: what it writes for a statement is the text of the statement,
indented as a whole (`Stmt.write_eq`). In this text each line with an opening brace has a closing line
(`Code.IsMatched`), as long as no name brings a line of its own.
-/

namespace Interop.Managed

/-! ## Writers -/

def blanks (depth : Nat) : String :=
  String.ofList (List.replicate (4 * depth) ' ')

def indentLineTo (depth : Nat) (line : String) : String :=
  if line = "" then "" else blanks depth ++ line

/-- The text with each line indented that is not empty. -/
def indentText (depth : Nat) (text : String) : String :=
  Text.joinWith "\n" ((Text.split '\n' text).map (indentLineTo depth))

/-- Text that is put out line by line at the current depth. -/
structure Writer where
  output : String := ""
  depth : Nat := 0

namespace Writer

/-- Puts out a text, whose line breaks start new lines at the same depth. -/
def line (w : Writer) (text : String) : Writer where
  output := w.output ++ String.join ((Text.split '\n' text).map fun line => indentLineTo w.depth line ++ "\n")
  depth := w.depth

def blank (w : Writer) : Writer where
  output := w.output ++ "\n"
  depth := w.depth

def opened (w : Writer) : Writer :=
  { w.line "\x7b" with depth := w.depth + 1 }

def closed (w : Writer) : Writer :=
  { w with depth := w.depth - 1 }.line "\x7d"

end Writer

namespace Stmt

mutual

def write : Stmt → Writer → Writer
  | .nothing, w => w
  | .block body, w => (writeBody none body w.opened).closed
  | .locals groups, w => groups.foldl (fun w l => w.line (l.text ++ ";")) w
  | .effect e, w => w.line (e.text ++ ";")
  | .ret none, w => w.line "return;"
  | .ret (some value), w => w.line ("return " ++ value.text ++ ";")
  | .effectThenReturn e, w => (w.line (e.text ++ ";")).line "return;"
  | .branch arms none, w => writeArms "" arms w
  | .branch arms (some body), w => (writeBody none body ((writeArms "" arms w).line "else").opened).closed
  | .whileLoop cond body, w => (writeBody none body (w.line ("while (" ++ cond.text ++ ")")).opened).closed
  | .doLoop body cond, w =>
    (writeBody none body (w.line "do").opened).closed.line ("while (" ++ cond.text ++ ");")
  | .forLoop init cond step body, w =>
    (writeBody none body (w.line ("for (" ++ init.text ++ ";" ++ headingPart (cond.map Expr.text) ++ ";" ++
      headingPart (step.map Effect.text) ++ ")")).opened).closed
  | .switch value sections, w =>
    (writeSections false sections (w.line ("switch (" ++ value.text ++ ")")).opened).closed
  | .breakOut, w => w.line "break;"
  | .continueLoop, w => w.line "continue;"

def writeBody (previous : Option Spacing) : List Stmt → Writer → Writer
  | [], w => w
  | s :: rest, w =>
    let w := if previous.any (·.separates s.spacing) then w.blank else w
    writeBody (some s.spacing) rest (s.write w)

def writeArms (lead : String) : List (Expr × List Stmt) → Writer → Writer
  | [], w => w
  | (cond, body) :: rest, w =>
    writeArms "else " rest (writeBody none body (w.line (lead ++ "if (" ++ cond.text ++ ")")).opened).closed

def writeSections (follows : Bool) : List (List Label × List Stmt) → Writer → Writer
  | [], w => w
  | (labels, body) :: rest, w =>
    let w := labels.foldl (fun w l => w.line l.text) (if follows then w.blank else w)
    writeSections true rest (writeBody none body w.opened).closed

end

end Stmt

/-! ## Lines at a depth -/

namespace Code

variable {code other : Code}

def indentTo (depth : Nat) (code : Code) : Code :=
  code.map (indentLineTo depth)

theorem indentLineTo_succ (depth : Nat) (line : String) :
    indentLineTo (depth + 1) line = indentLineTo depth (indentLine line) := by
  unfold indentLineTo indentLine
  split
  · rfl
  · rw [if_neg (by simp [String.append_eq_empty_iff])]
    rw [← String.toList_inj]
    simp [blanks, Nat.mul_add, List.replicate_add]

theorem indentTo_zero (code : Code) : indentTo 0 code = code := by
  refine (List.map_congr_left fun line _ => ?_).trans (List.map_id _)
  unfold indentLineTo
  split
  · simp_all
  · exact String.empty_append

theorem indentTo_succ (depth : Nat) (code : Code) : indentTo (depth + 1) code = indentTo depth (indent code) := by
  simp [indentTo, indent, indentLineTo_succ]

theorem text_append (code other : Code) : text (code ++ other) = text code ++ text other := by
  rw [← String.toList_inj, String.toList_append]
  simp [toList_text]

theorem joinWith_breaks (lines : List String) :
    Text.joinWith "\n" (lines ++ [""]) = String.join (lines.map (· ++ "\n")) := by
  induction lines with
  | nil => rfl
  | cons line lines ih =>
    have hcons : Text.joinWith "\n" (line :: (lines ++ [""])) =
        line ++ "\n" ++ Text.joinWith "\n" (lines ++ [""]) := by
      cases lines <;> rfl
    rw [List.cons_append, hcons, ih, List.map_cons, String.join_cons]

/-- Indenting the text of code indents its lines. -/
theorem indentText_text (depth : Nat) (h : code.IsBroken) :
    indentText depth code.text = (indentTo depth code).text := by
  have hlines : Text.split '\n' code.text = code ++ [""] := by
    have hsplit := ofText_text_append h ""
    rwa [String.append_empty] at hsplit
  have hempty : indentLineTo depth "" = "" := rfl
  rw [indentText, hlines, List.map_append, List.map_singleton, hempty, joinWith_breaks]
  rfl

end Code

namespace Writer

variable {w : Writer}

/-- The writer after lines of code. -/
def after (w : Writer) (code : Code) : Writer where
  output := w.output ++ (code.indentTo w.depth).text
  depth := w.depth

@[simp] theorem after_nil (w : Writer) : w.after [] = w := by
  simp [after, Code.indentTo, Code.text]

@[simp] theorem after_after (w : Writer) (code other : Code) :
    (w.after code).after other = w.after (code ++ other) := by
  simp [after, Code.indentTo, Code.text_append, String.append_assoc]

@[simp] theorem line_eq (w : Writer) (text : String) : w.line text = w.after (Code.ofText text) := by
  simp only [line, after, Code.indentTo, Code.text, List.map_map]
  rfl

@[simp] theorem blank_eq (w : Writer) : w.blank = w.after Code.blank :=
  rfl

@[simp] theorem closed_opened (w : Writer) (code : Code) : (w.opened.after code).closed = w.after code.braced := by
  have hbrace : ∀ brace, '\n' ∉ brace.toList → Code.ofText brace = [brace] := fun _ => ofText_of_not_mem
  calc (w.opened.after code).closed
    _ = ((w.after ["\x7b"]).after code.indent).after ["\x7d"] := by
      simp only [opened, closed, line_eq, hbrace "\x7b" (by decide), hbrace "\x7d" (by decide), after,
        Code.indentTo_succ, Nat.add_sub_cancel]
    _ = w.after code.braced := by simp [Code.braced]

@[simp] theorem foldl_after (f : α → Code) (as : List α) (w : Writer) :
    as.foldl (fun w a => w.after (f a)) w = w.after (as.flatMap f) := by
  induction as generalizing w with
  | nil => simp
  | cons a as ih => simp [ih]

end Writer

namespace Stmt

theorem separate_eq (previous : Option Spacing) (next : Spacing) (code : Code) (w : Writer) :
    (if previous.any (·.separates next) then w.blank else w).after code =
      w.after (separate previous next code) := by
  cases previous with
  | none => rfl
  | some p =>
    by_cases h : p.separates next = true
    · simp [separate, h]
    · simp [separate, h]

mutual

theorem write_eq : (s : Stmt) → (w : Writer) → s.write w = w.after s.code
  | .nothing, w => by simp [write, code]
  | .block body, w => by simp [write, code, writeBody_eq none body]
  | .locals groups, w => by simp [write, code]
  | .effect e, w => by simp [write, code]
  | .ret none, w => by simp [write, code]
  | .ret (some value), w => by simp [write, code]
  | .effectThenReturn e, w => by simp [write, code]
  | .branch arms none, w => by simp [write, code, writeArms_eq "" arms]
  | .branch arms (some body), w => by simp [write, code, writeArms_eq "" arms, writeBody_eq none body]
  | .whileLoop cond body, w => by simp [write, code, writeBody_eq none body]
  | .doLoop body cond, w => by simp [write, code, writeBody_eq none body]
  | .forLoop init cond step body, w => by simp [write, code, writeBody_eq none body]
  | .switch value sections, w => by simp [write, code, writeSections_eq false sections]
  | .breakOut, w => by simp [write, code]
  | .continueLoop, w => by simp [write, code]

theorem writeBody_eq (previous : Option Spacing) : (body : List Stmt) → (w : Writer) →
    writeBody previous body w = w.after (bodyCode previous body)
  | [], w => by simp [writeBody, bodyCode]
  | s :: rest, w => by
    simp only [writeBody, bodyCode, write_eq s, writeBody_eq (some s.spacing) rest, separate_eq,
      Writer.after_after]

theorem writeArms_eq (lead : String) : (arms : List (Expr × List Stmt)) → (w : Writer) →
    writeArms lead arms w = w.after (armsCode lead arms)
  | [], w => by simp [writeArms, armsCode]
  | (cond, body) :: rest, w => by simp [writeArms, armsCode, writeBody_eq none body, writeArms_eq "else " rest]

theorem writeSections_eq (follows : Bool) : (sections : List (List Label × List Stmt)) → (w : Writer) →
    writeSections follows sections w = w.after (sectionsCode follows sections)
  | [], w => by simp [writeSections, sectionsCode]
  | (labels, body) :: rest, w => by
    cases follows <;>
      simp [writeSections, sectionsCode, writeBody_eq none body, writeSections_eq true rest]

end

end Stmt

/-! ## Lines without breaks -/

namespace Code

@[simp] theorem isBroken_nil : IsBroken [] :=
  List.forall_mem_nil _

@[simp] theorem isBroken_append (code other : Code) :
    IsBroken (code ++ other) ↔ code.IsBroken ∧ other.IsBroken :=
  List.forall_mem_append

@[simp] theorem isBroken_blank : blank.IsBroken :=
  List.forall_mem_singleton.mpr (by decide)

@[simp] theorem isBroken_indent (code : Code) : code.indent.IsBroken ↔ code.IsBroken := by
  refine List.forall_mem_map.trans (forall₂_congr fun line _ => ?_)
  unfold indentLine
  split <;> simp_all

@[simp] theorem isBroken_braced (code : Code) : code.braced.IsBroken ↔ code.IsBroken := by
  have hopening : IsBroken ["\x7b"] := List.forall_mem_singleton.mpr (by decide)
  have hclosing : IsBroken ["\x7d"] := List.forall_mem_singleton.mpr (by decide)
  change IsBroken (["\x7b"] ++ code.indent ++ ["\x7d"]) ↔ _
  rw [isBroken_append, isBroken_append, isBroken_indent, and_iff_right hopening, and_iff_left hclosing]

theorem isBroken_flatMap (f : α → String) (as : List α) : IsBroken (as.flatMap fun a => ofText (f a)) := by
  intro line hline
  obtain ⟨a, -, hline⟩ := List.mem_flatMap.mp hline
  exact isBroken_ofText _ line hline

end Code

namespace Stmt

mutual

theorem isBroken_code : (s : Stmt) → s.code.IsBroken
  | .nothing => by simp [code]
  | .block body => by simp [code, isBroken_bodyCode none body]
  | .locals groups => by simp [code, Code.isBroken_flatMap]
  | .effect e => by simp [code, isBroken_ofText]
  | .ret none => by simp [code, isBroken_ofText]
  | .ret (some value) => by simp [code, isBroken_ofText]
  | .effectThenReturn e => by simp [code, isBroken_ofText]
  | .branch arms none => by simp [code, isBroken_armsCode "" arms]
  | .branch arms (some body) => by
    simp [code, isBroken_ofText, isBroken_armsCode "" arms, isBroken_bodyCode none body]
  | .whileLoop cond body => by simp [code, isBroken_ofText, isBroken_bodyCode none body]
  | .doLoop body cond => by simp [code, isBroken_ofText, isBroken_bodyCode none body]
  | .forLoop init cond step body => by simp [code, isBroken_ofText, isBroken_bodyCode none body]
  | .switch value sections => by simp [code, isBroken_ofText, isBroken_sectionsCode false sections]
  | .breakOut => by simp [code, isBroken_ofText]
  | .continueLoop => by simp [code, isBroken_ofText]

theorem isBroken_bodyCode (previous : Option Spacing) : (body : List Stmt) → (bodyCode previous body).IsBroken
  | [] => by simp [bodyCode]
  | s :: rest => by
    have hs := isBroken_code s
    rw [bodyCode, Code.isBroken_append]
    refine ⟨?_, isBroken_bodyCode (some s.spacing) rest⟩
    unfold separate
    split
    · split <;> simp [hs]
    · exact hs

theorem isBroken_armsCode (lead : String) : (arms : List (Expr × List Stmt)) → (armsCode lead arms).IsBroken
  | [] => by simp [armsCode]
  | (cond, body) :: rest => by
    simp [armsCode, isBroken_ofText, isBroken_bodyCode none body, isBroken_armsCode "else " rest]

theorem isBroken_sectionsCode (follows : Bool) :
    (sections : List (List Label × List Stmt)) → (sectionsCode follows sections).IsBroken
  | [] => by simp [sectionsCode]
  | (labels, body) :: rest => by
    cases follows <;> simp [sectionsCode, Code.isBroken_flatMap, isBroken_bodyCode none body,
      isBroken_sectionsCode true rest]

end

end Stmt

/-! ## Matched braces -/

namespace Code

variable {code other : Code} {line tail : String} {column : Nat}

/-- The line is an opening brace, behind as many blanks. -/
def OpensAt (column : Nat) (line : String) : Prop :=
  line.toList = List.replicate column ' ' ++ ['\x7b']

/-- The line starts with a closing brace, behind as many blanks. -/
def ClosesAt (column : Nat) (line : String) : Prop :=
  List.replicate column ' ' ++ ['\x7d'] <+: line.toList

/-- The line is empty or further to the right. -/
def IsBehind (column : Nat) (line : String) : Prop :=
  line = "" ∨ List.replicate (column + 1) ' ' <+: line.toList

/-- Each line that is an opening brace is followed by lines further to the right and a closing line at the
same indentation. -/
inductive IsMatched : Code → Prop
  | nil : IsMatched []
  | cons {line : String} {rest : Code}
      (hline : ∀ column, OpensAt column line → ∃ inner closing behind, rest = inner ++ closing :: behind ∧
        (∀ l ∈ inner, IsBehind column l) ∧ ClosesAt column closing) (hrest : IsMatched rest) :
      IsMatched (line :: rest)

theorem IsMatched.append (h : IsMatched code) (hother : IsMatched other) : IsMatched (code ++ other) := by
  induction h with
  | nil => exact hother
  | cons hline hrest ih =>
    refine .cons (fun column hopens => ?_) ih
    obtain ⟨inner, closing, behind, rfl, hinner, hcloses⟩ := hline column hopens
    exact ⟨inner, closing, behind ++ other, by simp, hinner, hcloses⟩

theorem isMatched_flatMap {f : α → Code} {as : List α} (h : ∀ a ∈ as, IsMatched (f a)) :
    IsMatched (as.flatMap f) := by
  induction as with
  | nil => exact .nil
  | cons a as ih =>
    rw [List.flatMap_cons]
    exact (h a (List.mem_cons_self ..)).append (ih fun b hb => h b (List.mem_cons_of_mem _ hb))

theorem isMatched_cons (hline : ∀ column, ¬ OpensAt column line) (h : IsMatched code) :
    IsMatched (line :: code) :=
  .cons (fun column hopens => absurd hopens (hline column)) h

theorem toList_indentLine {line : String} (h : line ≠ "") :
    (indentLine line).toList = List.replicate 4 ' ' ++ line.toList := by
  rw [indentLine, if_neg h, String.toList_append]
  rfl

theorem OpensAt.of_indentLine (h : OpensAt column (indentLine line)) :
    ∃ outer, column = 4 + outer ∧ OpensAt outer line := by
  have hline : line ≠ "" := by
    rintro rfl
    simp [OpensAt, indentLine] at h
  rw [OpensAt, toList_indentLine hline] at h
  rcases column with _ | _ | _ | _ | column
  case succ.succ.succ.succ =>
    rw [Nat.add_comm column 4, List.replicate_add, List.append_assoc] at h
    exact ⟨column, by omega, List.append_cancel_left h⟩
  all_goals simp [List.replicate_succ] at h

theorem ClosesAt.indentLine (h : ClosesAt column line) : ClosesAt (4 + column) (indentLine line) := by
  have hline : line ≠ "" := by
    rintro rfl
    simp [ClosesAt] at h
  rw [ClosesAt, toList_indentLine hline, List.replicate_add, List.append_assoc]
  exact (List.prefix_append_right_inj _).mpr h

theorem IsBehind.indentLine (h : IsBehind column line) : IsBehind (4 + column) (indentLine line) := by
  rcases eq_or_ne line "" with rfl | hline
  · exact .inl rfl
  · refine .inr ?_
    rw [toList_indentLine hline, Nat.add_assoc, List.replicate_add]
    exact (List.prefix_append_right_inj _).mpr (h.resolve_left hline)

theorem IsMatched.indent (h : IsMatched code) : IsMatched code.indent := by
  induction h with
  | nil => exact .nil
  | cons hline hrest ih =>
    refine .cons (fun column hopens => ?_) ih
    obtain ⟨outer, rfl, houter⟩ := hopens.of_indentLine
    obtain ⟨inner, closing, behind, rfl, hinner, hcloses⟩ := hline outer houter
    refine ⟨Code.indent inner, Code.indentLine closing, Code.indent behind, by simp [Code.indent], ?_,
      hcloses.indentLine⟩
    exact List.forall_mem_map.mpr fun line hline => (hinner line hline).indentLine

theorem not_opensAt_of_mem {c : Char} (h : c ∈ line.toList) (hblank : c ≠ ' ') (hbrace : c ≠ '\x7b') :
    ¬ OpensAt column line := by
  intro hopens
  rw [hopens, List.mem_append, List.mem_replicate, List.mem_singleton] at h
  rcases h with ⟨-, rfl⟩ | rfl <;> contradiction

theorem isMatched_line (h : '\n' ∉ line.toList ∧ ∃ c ∈ line.toList, c ≠ ' ' ∧ c ≠ '\x7b') :
    IsMatched (ofText line) := by
  obtain ⟨hbreak, c, hmem, hblank, hbrace⟩ := h
  rw [ofText_of_not_mem hbreak]
  exact isMatched_cons (fun column => not_opensAt_of_mem hmem hblank hbrace) .nil

theorem isMatched_blank : IsMatched blank :=
  isMatched_cons (fun column => by simp [OpensAt]) .nil

/-- Indented lines between two braces at the margin, where more may follow the closing one. -/
theorem IsMatched.between (h : IsMatched code) (hother : IsMatched (("\x7d" ++ tail) :: other)) :
    IsMatched ("\x7b" :: code.indent ++ ("\x7d" ++ tail) :: other) := by
  refine .cons (fun column hopens => ?_) (h.indent.append hother)
  obtain rfl : column = 0 := by
    cases column with
    | zero => rfl
    | succ column => simp [OpensAt, List.replicate_succ] at hopens
  refine ⟨code.indent, _, other, rfl, fun line hline => ?_, by simp [ClosesAt]⟩
  obtain ⟨line, -, rfl⟩ := List.mem_map.mp hline
  rcases eq_or_ne line "" with rfl | hline
  · exact .inl rfl
  · rw [IsBehind, toList_indentLine hline]
    exact .inr ⟨[' ', ' ', ' '] ++ line.toList, rfl⟩

theorem IsMatched.braced (h : IsMatched code) : IsMatched code.braced := by
  have hclosing : IsMatched ["\x7d" ++ ""] :=
    isMatched_cons (fun column => not_opensAt_of_mem (c := '\x7d') (by decide) (by decide) (by decide)) .nil
  exact h.between hclosing

end Code

/-! ## Texts over several lines -/

/-- Parts of one line with lists of initial values between them. -/
inductive Nests : String → Prop
  | line {text : String} (h : '\n' ∉ text.toList) : Nests text
  | listing {lead heading rest : String} {entries : List String} (hlead : '\n' ∉ lead.toList)
      (hheading : '\n' ∉ heading.toList) (hentries : ∀ entry ∈ entries, Nests entry) (hrest : Nests rest) :
      Nests (lead ++ Expr.listing ("new " ++ heading) entries ++ rest)

namespace Nests

variable {s t : String}

theorem append (hs : Nests s) (ht : Nests t) : Nests (s ++ t) := by
  induction hs with
  | line hs =>
    cases ht with
    | line ht => exact .line (by simp [hs, ht])
    | listing hlead hheading hentries hrest =>
      rw [← String.append_assoc, ← String.append_assoc]
      exact .listing (by simp [hs, hlead]) hheading hentries hrest
  | listing hlead hheading hentries hrest ih hother =>
    rw [String.append_assoc]
    exact .listing hlead hheading hentries hother

theorem ofListing {heading : String} {entries : List String} (hheading : '\n' ∉ heading.toList)
    (hentries : ∀ entry ∈ entries, Nests entry) : Nests (Expr.listing ("new " ++ heading) entries) := by
  have hlisting : Nests ("" ++ Expr.listing ("new " ++ heading) entries ++ "") :=
    .listing (by decide) hheading hentries (.line (by decide))
  rwa [String.empty_append, String.append_empty] at hlisting

theorem ofText_listing {lead heading : String} (hlead : '\n' ∉ lead.toList) (hheading : '\n' ∉ heading.toList)
    (entries : List String) (rest : String) :
    Code.ofText (lead ++ Expr.listing heading entries ++ rest) =
      (lead ++ heading) :: "\x7b" :: Code.indent (entries.flatMap fun entry => Code.ofText (entry ++ ",")) ++
        Code.ofText ("\x7d" ++ rest) := by
  have hbroken : Code.IsBroken ((lead ++ heading) :: "\x7b" ::
      Code.indent (entries.flatMap fun entry => Code.ofText (entry ++ ","))) := by
    refine List.forall_mem_cons.mpr ⟨by simp [hlead, hheading], List.forall_mem_cons.mpr ⟨by decide, ?_⟩⟩
    exact (Code.isBroken_indent _).mpr (Code.isBroken_flatMap _ entries)
  rw [← ofText_text_append hbroken]
  congr 1
  rw [← String.toList_inj]
  simp [Expr.toList_listing hheading, toList_text]

theorem exists_ofText_brace (rest : String) :
    ∃ tail behind, Code.ofText ("\x7d" ++ rest) = ("\x7d" ++ tail) :: behind := by
  have hsplit : ∃ part parts, Text.splitChars '\n' ('\x7d' :: rest.toList) = ('\x7d' :: part) :: parts := by
    rcases splitChars_cases '\n' rest.toList with ⟨-, hsplit⟩ | ⟨first, behind, -, -, hsplit⟩
    · exact ⟨_, _, by rw [Text.splitChars, hsplit]; rfl⟩
    · exact ⟨_, _, by rw [Text.splitChars, hsplit]; rfl⟩
  obtain ⟨part, parts, hsplit⟩ := hsplit
  refine ⟨String.ofList part, parts.map String.ofList, ?_⟩
  have hlist : ("\x7d" ++ rest).toList = '\x7d' :: rest.toList := by simp
  rw [Code.ofText, Text.split, hlist, hsplit, List.map_cons]
  congr 1
  rw [← String.toList_inj]
  simp

/-- A text between the start and the end of a line, where the end is more than a brace. -/
theorem isMatched (h : Nests t) {lead tail : String} (hlead : '\n' ∉ lead.toList)
    (htail : '\n' ∉ tail.toList ∧ ∃ c ∈ tail.toList, c ≠ ' ' ∧ c ≠ '\x7b') :
    Code.IsMatched (Code.ofText (lead ++ t ++ tail)) := by
  induction h generalizing lead tail with
  | line h =>
    obtain ⟨hbreak, c, hmem, hother⟩ := htail
    exact Code.isMatched_line ⟨by simp [hlead, h, hbreak], c, by simp [hmem], hother⟩
  | @listing inside heading rest entries hinside hheading hentries hrest ih hother =>
    have hentered : Code.IsMatched (entries.flatMap fun entry => Code.ofText (entry ++ ",")) := by
      refine Code.isMatched_flatMap fun entry hentry => ?_
      have hmatched : Code.IsMatched (Code.ofText ("" ++ entry ++ ",")) :=
        ih entry hentry (by decide) (by simp)
      rwa [String.empty_append] at hmatched
    have hbehind : Code.IsMatched (Code.ofText ("\x7d" ++ rest ++ tail)) := hother (by decide) htail
    obtain ⟨last, behind, hlines⟩ := exists_ofText_brace (rest ++ tail)
    rw [String.append_assoc, hlines] at hbehind
    have htext : lead ++ (inside ++ Expr.listing ("new " ++ heading) entries ++ rest) ++ tail =
        lead ++ inside ++ Expr.listing ("new " ++ heading) entries ++ (rest ++ tail) := by
      simp only [String.append_assoc]
    rw [htext, ofText_listing (by simp [hlead, hinside]) (by simp [hheading]), hlines]
    refine Code.isMatched_cons (fun column => ?_) (hentered.between hbehind)
    exact Code.not_opensAt_of_mem (c := 'n') (by simp) (by decide) (by decide)

theorem isMatched_ended (h : Nests t) {tail : String}
    (htail : '\n' ∉ tail.toList ∧ ∃ c ∈ tail.toList, c ≠ ' ' ∧ c ≠ '\x7b') :
    Code.IsMatched (Code.ofText (t ++ tail)) := by
  have hmatched : Code.IsMatched (Code.ofText ("" ++ t ++ tail)) := h.isMatched (by decide) htail
  rwa [String.empty_append] at hmatched

theorem parenthesized (h : Nests s) : Nests (parenthesized s) :=
  ((Nests.line (by decide)).append h).append (.line (by decide))

theorem atLeast {p : Piece} (h : Nests p.text) (least : Precedence) : Nests (p.atLeast least) := by
  unfold Piece.atLeast
  split
  · exact h.parenthesized
  · exact h

theorem above {p : Piece} (h : Nests p.text) (level : Precedence) : Nests (p.above level) := by
  unfold Piece.above
  split
  · exact h.parenthesized
  · exact h

theorem unaryPiece {p : Piece} (h : Nests p.text) (op : UnaryOp) : Nests (Expr.unaryPiece op p).text := by
  have hsymbol : Nests op.symbol := .line (by cases op <;> decide)
  unfold Expr.unaryPiece
  split
  · exact (h.atLeast _).append hsymbol
  · refine hsymbol.append ?_
    split
    · exact (h.atLeast _).parenthesized
    · exact h.atLeast _

theorem binaryPiece {p q : Piece} (hp : Nests p.text) (hq : Nests q.text) (op : BinaryOp) :
    Nests (Expr.binaryPiece op p q).text := by
  have hsymbol : ∀ {a b : String}, Nests a → Nests b → Nests (a ++ " " ++ op.symbol ++ " " ++ b) := by
    intro a b ha hb
    have hblank : Nests " " := .line (by decide)
    exact (((ha.append hblank).append (.line (by cases op <;> decide))).append hblank).append hb
  unfold Expr.binaryPiece
  split
  · exact hsymbol (hp.atLeast _) hq
  · exact hsymbol (hp.atLeast _) (hq.above _)

theorem joinWith {parts : List String} (h : ∀ part ∈ parts, Nests part) : Nests (Text.joinWith ", " parts) := by
  induction parts with
  | nil => exact .line (by decide)
  | cons first rest ih =>
    obtain ⟨hfirst, hrest⟩ := List.forall_mem_cons.mp h
    cases rest with
    | nil => exact hfirst
    | cons second rest => exact (hfirst.append (.line (by decide))).append (ih hrest)

end Nests

/-! ## Words -/

namespace Expr

mutual

/-- The names, types and literals that an expression is written with. -/
def words : Expr → List String
  | .literal text => [text]
  | .ident name => [name]
  | .paren inner => inner.words
  | .unary _ operand => operand.words
  | .binary _ lhs rhs => lhs.words ++ rhs.words
  | .conditional cond thenExpr elseExpr => cond.words ++ (thenExpr.words ++ elseExpr.words)
  | .cast type operand => type.text :: operand.words
  | .unchecked inner => inner.words
  | .call callee args => callee.words ++ wordsOfAll args
  | .member object _ name => name :: object.words
  | .subscript base index => base.words ++ index.words
  | .byRef inner => inner.words
  | .sizeOf type => [type.text]
  | .newArray element _ => [element.text]
  | .arrayOf element _ items => element.text :: wordsOfAll items
  | .newObject type => [type.text]
  | .objectOf type fields => type.text :: wordsOfFields fields

def wordsOfAll : List Expr → List String
  | [] => []
  | e :: rest => e.words ++ wordsOfAll rest

def wordsOfFields : List (String × Expr) → List String
  | [] => []
  | (name, e) :: rest => name :: (e.words ++ wordsOfFields rest)

end

theorem break_notMem_toDigits (n : Nat) : '\n' ∉ Nat.toDigits 10 n := by
  intro h
  exact absurd (Nat.isDigit_of_mem_toDigits (by decide) (by decide) h) (by decide)

mutual

theorem nests : (e : Expr) → (∀ word ∈ e.words, '\n' ∉ word.toList) → Nests e.piece.text
  | .literal text, h => .line (h text (by simp [words]))
  | .ident name, h => .line (h name (by simp [words]))
  | .paren inner, h => (nests inner h).parenthesized
  | .unary op operand, h => (nests operand h).unaryPiece op
  | .binary op lhs rhs, h => by
    obtain ⟨hl, hr⟩ := List.forall_mem_append.mp h
    exact (nests lhs hl).binaryPiece (nests rhs hr) op
  | .conditional cond thenExpr elseExpr, h => by
    obtain ⟨hcond, h⟩ := List.forall_mem_append.mp h
    obtain ⟨hthen, helse⟩ := List.forall_mem_append.mp h
    exact (((((nests cond hcond).above _).append (.line (by decide))).append ((nests thenExpr hthen).atLeast _)).append
      (.line (by decide))).append ((nests elseExpr helse).atLeast _)
  | .cast type operand, h => by
    obtain ⟨htype, h⟩ := List.forall_mem_cons.mp h
    exact (Nests.line htype).parenthesized.append ((nests operand h).atLeast _)
  | .unchecked inner, h => (Nests.line (by decide)).append (nests inner h).parenthesized
  | .call callee args, h => by
    obtain ⟨hcallee, hargs⟩ := List.forall_mem_append.mp h
    exact ((nests callee hcallee).atLeast _).append (Nests.joinWith (nests_texts args hargs)).parenthesized
  | .member object isArrow name, h => by
    obtain ⟨hname, h⟩ := List.forall_mem_cons.mp h
    refine (((nests object h).atLeast _).append (.line ?_)).append (.line hname)
    cases isArrow <;> decide
  | .subscript base index, h => by
    obtain ⟨hbase, hindex⟩ := List.forall_mem_append.mp h
    exact ((((nests base hbase).atLeast _).append (.line (by decide))).append (nests index hindex)).append
      (.line (by decide))
  | .byRef inner, h => (Nests.line (by decide)).append (nests inner h)
  | .sizeOf type, h => (Nests.line (by decide)).append (Nests.line (h type.text (by simp [words]))).parenthesized
  | .newArray element size, h => .line (by simp [piece, h element.text (by simp [words]), break_notMem_toDigits])
  | .arrayOf element size items, h => by
    obtain ⟨helement, hitems⟩ := List.forall_mem_cons.mp h
    have hheading : "new " ++ element.text ++ "[" ++ size.repr ++ "]" =
        "new " ++ (element.text ++ "[" ++ size.repr ++ "]") := by
      simp only [String.append_assoc]
    simp only [piece, hheading]
    exact .ofListing (by simp [helement, break_notMem_toDigits]) (nests_texts items hitems)
  | .newObject type, h => .line (by simp [piece, h type.text (by simp [words])])
  | .objectOf type fields, h => by
    obtain ⟨htype, hfields⟩ := List.forall_mem_cons.mp h
    exact .ofListing htype (nests_fieldTexts fields hfields)

theorem nests_texts : (es : List Expr) → (∀ word ∈ wordsOfAll es, '\n' ∉ word.toList) → ∀ t ∈ texts es, Nests t
  | [], _ => by simp [texts]
  | e :: rest, h => by
    obtain ⟨he, hrest⟩ := List.forall_mem_append.mp h
    exact List.forall_mem_cons.mpr ⟨nests e he, nests_texts rest hrest⟩

theorem nests_fieldTexts : (fields : List (String × Expr)) →
    (∀ word ∈ wordsOfFields fields, '\n' ∉ word.toList) → ∀ t ∈ fieldTexts fields, Nests t
  | [], _ => by simp [fieldTexts]
  | (name, e) :: rest, h => by
    obtain ⟨hname, h⟩ := List.forall_mem_cons.mp h
    obtain ⟨he, hrest⟩ := List.forall_mem_append.mp h
    refine List.forall_mem_cons.mpr ⟨?_, nests_fieldTexts rest hrest⟩
    exact ((Nests.line hname).append (.line (by decide))).append (nests e he)

end

end Expr

def Effect.words (e : Effect) : List String :=
  e.value.words

def Declarator.words (d : Declarator) : List String :=
  d.name :: (d.value.map Expr.words).getD []

def Locals.words (l : Locals) : List String :=
  l.type.text :: l.declarators.flatMap Declarator.words

def ForInit.words : ForInit → List String
  | .nothing => []
  | .locals l => l.words
  | .effect e => e.words

def Label.words : Label → List String
  | .value e => e.words
  | .otherwise => []

namespace Stmt

mutual

def words : Stmt → List String
  | .nothing => []
  | .block body => wordsOfBody body
  | .locals groups => groups.flatMap Locals.words
  | .effect e => e.words
  | .ret value => (value.map Expr.words).getD []
  | .effectThenReturn e => e.words
  | .branch arms otherwise =>
    wordsOfArms arms ++ match otherwise with
      | none => []
      | some body => wordsOfBody body
  | .whileLoop cond body => cond.words ++ wordsOfBody body
  | .doLoop body cond => wordsOfBody body ++ cond.words
  | .forLoop init cond step body =>
    init.words ++ ((cond.map Expr.words).getD [] ++ ((step.map Effect.words).getD [] ++ wordsOfBody body))
  | .switch value sections => value.words ++ wordsOfSections sections
  | .breakOut => []
  | .continueLoop => []

def wordsOfBody : List Stmt → List String
  | [] => []
  | s :: rest => s.words ++ wordsOfBody rest

def wordsOfArms : List (Expr × List Stmt) → List String
  | [] => []
  | (cond, body) :: rest => cond.words ++ (wordsOfBody body ++ wordsOfArms rest)

def wordsOfSections : List (List Label × List Stmt) → List String
  | [] => []
  | (labels, body) :: rest => labels.flatMap Label.words ++ (wordsOfBody body ++ wordsOfSections rest)

end

end Stmt

/-! ## Statements -/

theorem nests_headingPart {part : Option α} (text : α → String) (h : ∀ a ∈ part, Nests (text a)) :
    Nests (Stmt.headingPart (part.map text)) := by
  cases part with
  | none =>
    have hempty : Nests "" := .line (by decide)
    exact hempty
  | some a => exact (Nests.line (by decide)).append (h a rfl)

theorem Effect.nests {e : Effect} (h : ∀ word ∈ e.words, '\n' ∉ word.toList) : Nests e.text := by
  refine Nests.append (.line ?_) (e.value.nests h)
  cases e.discards <;> decide

theorem Declarator.nests {d : Declarator} (h : ∀ word ∈ d.words, '\n' ∉ word.toList) : Nests d.text := by
  obtain ⟨name, value⟩ := d
  obtain ⟨hname, hvalue⟩ := List.forall_mem_cons.mp h
  cases value with
  | none => exact .line hname
  | some value => exact ((Nests.line hname).append (.line (by decide))).append (value.nests hvalue)

theorem Locals.nests {l : Locals} (h : ∀ word ∈ l.words, '\n' ∉ word.toList) : Nests l.text := by
  obtain ⟨htype, hdeclarators⟩ := List.forall_mem_cons.mp h
  refine ((Nests.line htype).append (.line (by decide))).append (.joinWith (List.forall_mem_map.mpr fun d hd => ?_))
  exact Declarator.nests fun word hword => hdeclarators word (List.mem_flatMap.mpr ⟨d, hd, hword⟩)

theorem ForInit.nests {init : ForInit} (h : ∀ word ∈ init.words, '\n' ∉ word.toList) : Nests init.text := by
  cases init with
  | nothing => exact .line (by decide)
  | locals l => exact l.nests h
  | effect e => exact e.nests h

theorem Label.isMatched {l : Label} (h : ∀ word ∈ l.words, '\n' ∉ word.toList) :
    Code.IsMatched (Code.ofText l.text) := by
  cases l with
  | value e => exact (e.nests h).isMatched (by decide) (by simp)
  | otherwise => exact Code.isMatched_line (by simp [text])

namespace Stmt

theorem isMatched_forHeading {init : ForInit} {cond : Option Expr} {step : Option Effect}
    (hinit : ∀ word ∈ init.words, '\n' ∉ word.toList)
    (hcond : ∀ word ∈ (cond.map Expr.words).getD [], '\n' ∉ word.toList)
    (hstep : ∀ word ∈ (step.map Effect.words).getD [], '\n' ∉ word.toList) :
    Code.IsMatched (Code.ofText ("for (" ++ init.text ++ ";" ++ headingPart (cond.map Expr.text) ++ ";" ++
      headingPart (step.map Effect.text) ++ ")")) := by
  have hcond : Nests (headingPart (cond.map Expr.text)) := by
    refine nests_headingPart Expr.text fun e he => e.nests ?_
    rwa [he] at hcond
  have hstep : Nests (headingPart (step.map Effect.text)) := by
    refine nests_headingPart Effect.text fun e he => e.nests ?_
    rwa [he] at hstep
  have hfor : Nests "for (" := .line (by decide)
  have hpart : Nests ";" := .line (by decide)
  have hheading := ((((hfor.append (ForInit.nests hinit)).append hpart).append hcond).append hpart).append hstep
  exact hheading.isMatched_ended (by simp)

mutual

theorem isMatched_code : (s : Stmt) → (∀ word ∈ s.words, '\n' ∉ word.toList) → s.code.IsMatched
  | .nothing, _ => .nil
  | .block body, h => (isMatched_bodyCode none body h).braced
  | .locals groups, h => by
    refine Code.isMatched_flatMap fun l hl => Nests.isMatched_ended ?_ (by simp)
    exact Locals.nests fun word hword => h word (List.mem_flatMap.mpr ⟨l, hl, hword⟩)
  | .effect e, h => (Effect.nests h).isMatched_ended (by simp)
  | .ret none, _ => Code.isMatched_line (by simp)
  | .ret (some value), h => (value.nests h).isMatched (by decide) (by simp)
  | .effectThenReturn e, h => ((Effect.nests h).isMatched_ended (by simp)).append (Code.isMatched_line (by simp))
  | .branch arms none, h => by
    rw [words, List.append_nil] at h
    exact isMatched_armsCode "" arms (by decide) h
  | .branch arms (some body), h => by
    rw [words, List.forall_mem_append] at h
    rw [code]
    exact ((isMatched_armsCode "" arms (by decide) h.1).append (Code.isMatched_line (by simp))).append
      (isMatched_bodyCode none body h.2).braced
  | .whileLoop cond body, h => by
    rw [words, List.forall_mem_append] at h
    rw [code]
    exact ((cond.nests h.1).isMatched (by decide) (by simp)).append (isMatched_bodyCode none body h.2).braced
  | .doLoop body cond, h => by
    rw [words, List.forall_mem_append] at h
    rw [code]
    exact ((Code.isMatched_line (by simp)).append (isMatched_bodyCode none body h.1).braced).append
      ((cond.nests h.2).isMatched (by decide) (by simp))
  | .forLoop init cond step body, h => by
    rw [words, List.forall_mem_append, List.forall_mem_append, List.forall_mem_append] at h
    rw [code]
    exact (isMatched_forHeading h.1 h.2.1 h.2.2.1).append (isMatched_bodyCode none body h.2.2.2).braced
  | .switch value sections, h => by
    rw [words, List.forall_mem_append] at h
    rw [code]
    exact ((value.nests h.1).isMatched (by decide) (by simp)).append (isMatched_sectionsCode false sections h.2).braced
  | .breakOut, _ => Code.isMatched_line (by simp)
  | .continueLoop, _ => Code.isMatched_line (by simp)

theorem isMatched_bodyCode (previous : Option Spacing) : (body : List Stmt) →
    (∀ word ∈ wordsOfBody body, '\n' ∉ word.toList) → (bodyCode previous body).IsMatched
  | [], _ => .nil
  | s :: rest, h => by
    obtain ⟨hs, hrest⟩ := List.forall_mem_append.mp h
    have hcode := isMatched_code s hs
    refine Code.IsMatched.append ?_ (isMatched_bodyCode (some s.spacing) rest hrest)
    unfold separate
    split
    · split
      · exact Code.isMatched_blank.append hcode
      · exact hcode
    · exact hcode

theorem isMatched_armsCode (lead : String) : (arms : List (Expr × List Stmt)) → '\n' ∉ lead.toList →
    (∀ word ∈ wordsOfArms arms, '\n' ∉ word.toList) → (armsCode lead arms).IsMatched
  | [], _, _ => .nil
  | (cond, body) :: rest, hlead, h => by
    obtain ⟨hcond, h⟩ := List.forall_mem_append.mp h
    obtain ⟨hbody, hrest⟩ := List.forall_mem_append.mp h
    exact (((cond.nests hcond).isMatched (by simp [hlead]) (by simp)).append
      (isMatched_bodyCode none body hbody).braced).append (isMatched_armsCode "else " rest (by decide) hrest)

theorem isMatched_sectionsCode (follows : Bool) : (sections : List (List Label × List Stmt)) →
    (∀ word ∈ wordsOfSections sections, '\n' ∉ word.toList) → (sectionsCode follows sections).IsMatched
  | [], _ => .nil
  | (labels, body) :: rest, h => by
    obtain ⟨hlabels, h⟩ := List.forall_mem_append.mp h
    obtain ⟨hbody, hrest⟩ := List.forall_mem_append.mp h
    have hblank : Code.IsMatched (if follows then Code.blank else []) := by
      split
      · exact Code.isMatched_blank
      · exact .nil
    have hlabeled : Code.IsMatched (labels.flatMap fun l => Code.ofText l.text) :=
      Code.isMatched_flatMap fun l hl =>
        Label.isMatched fun word hword => hlabels word (List.mem_flatMap.mpr ⟨l, hl, hword⟩)
    exact ((hblank.append hlabeled).append (isMatched_bodyCode none body hbody).braced).append
      (isMatched_sectionsCode true rest hrest)

end

end Stmt

end Interop.Managed

namespace Interop.Binding

open Native (StmtId)
open Managed (Writer Code indentText)

/-- Emits a statement into a writer. -/
def writeStmt (id : StmtId) (w : Writer) : Emit Writer := do
  return (← emitStmt id).write w

theorem run_writeStmt_iff {env : Env} {c c' : Context} {id : StmtId} {w w' : Writer} :
    (writeStmt id w).run env c = (.ok w', c') ↔
      ∃ s, (emitStmt id).run env c = (.ok s, c') ∧ w' = w.after s.code := by
  constructor
  · intro h
    rcases hrun : (emitStmt id).run env c with ⟨_ | s, after⟩
    · rw [writeStmt, Emit.run_bind_error hrun] at h
      cases h
    · rw [writeStmt, Emit.run_bind_ok hrun] at h
      cases h
      exact ⟨s, rfl, s.write_eq w⟩
  · rintro ⟨s, hrun, rfl⟩
    rw [writeStmt, Emit.run_bind_ok hrun, ← s.write_eq]
    rfl

/-- **What is written for a statement is its text at the depth of the writer.** -/
theorem written_stmt_is_indented_text {env : Env} {c c' : Context} {id : StmtId} {w w' : Writer}
    (h : (writeStmt id w).run env c = (.ok w', c')) :
    ∃ s text, (emitStmt id).run env c = (.ok s, c') ∧ text = s.code.text ∧
      (writeStmt id {}).run env c = (.ok { output := text }, c') ∧
      w' = { output := w.output ++ indentText w.depth text, depth := w.depth } ∧
      ((∀ word ∈ s.words, '\n' ∉ word.toList) → (Code.ofText text).IsMatched) := by
  obtain ⟨s, hrun, rfl⟩ := run_writeStmt_iff.mp h
  have hbroken := s.isBroken_code
  refine ⟨s, s.code.text, hrun, rfl, run_writeStmt_iff.mpr ⟨s, hrun, ?_⟩, ?_, fun hwords => ?_⟩
  · rw [Writer.after, Code.indentTo_zero, String.empty_append]
  · rw [Writer.after, Code.indentText_text _ hbroken]
  · have hlines := Managed.ofText_text_append hbroken ""
    rw [String.append_empty] at hlines
    rw [hlines]
    exact (s.isMatched_code hwords).append Code.isMatched_blank

def drain : Native.Ast where
  file := "drain.h"
  decls :=
    #[{ kind := .var { type := ⟨0⟩ }, name := "level" },
      { kind := .var { type := ⟨1⟩, init := some ⟨2⟩ }, name := "marks" }]
  types := #[.ofBuiltin .int, { kind := .constantArray ⟨0⟩ 2, spelling := "int[2]" }]
  exprs :=
    #[{ kind := .integer "1", type := ⟨0⟩ }, { kind := .integer "2", type := ⟨0⟩ },
      { kind := .initList [⟨0⟩, ⟨1⟩], type := ⟨1⟩ }, { kind := .declRef ⟨0⟩, type := ⟨0⟩ }]
  stmts :=
    #[{ kind := .compound [⟨1⟩, ⟨2⟩] }, { kind := .decls [⟨0⟩, ⟨1⟩] }, { kind := .whileLoop ⟨3⟩ ⟨3⟩ },
      { kind := .breakOut }]

theorem drain_written : ∃ env s c', prepare {} drain = .ok env ∧
    (emitStmt ⟨0⟩).run env {} = (.ok s, c') ∧ (∀ word ∈ s.words, '\n' ∉ word.toList) ∧
    (writeStmt ⟨0⟩ { output := "Drain()\n", depth := 2 }).run env {} =
      (.ok { output := "Drain()\n" ++ indentText 2 s.code.text, depth := 2 }, c') ∧
    s.code = ["\x7b", "    int level;", "    int[] marks = new int[2]", "    \x7b", "        1,", "        2,",
      "    \x7d;", "", "    while ((level) != 0)", "    \x7b", "        break;", "    \x7d", "\x7d"] ∧
    (Code.ofText s.code.text).IsMatched := by
  obtain ⟨env, s, w', c', henv, hs, hwords, hcode, hrun⟩ : ∃ env s w' c', prepare {} drain = .ok env ∧
      (emitStmt ⟨0⟩).run env {} = (.ok s, c') ∧ (∀ word ∈ s.words, '\n' ∉ word.toList) ∧
      s.code = ["\x7b", "    int level;", "    int[] marks = new int[2]", "    \x7b", "        1,", "        2,",
        "    \x7d;", "", "    while ((level) != 0)", "    \x7b", "        break;", "    \x7d", "\x7d"] ∧
      (writeStmt ⟨0⟩ { output := "Drain()\n", depth := 2 }).run env {} = (.ok w', c') :=
    ⟨_, _, _, _, rfl, rfl, by decide, by decide, rfl⟩
  obtain ⟨s', text, hs', rfl, -, rfl, hmatched⟩ := written_stmt_is_indented_text hrun
  obtain rfl : s = s' := by
    rw [hs] at hs'
    cases hs'
    rfl
  exact ⟨env, s, c', henv, hs, hwords, hrun, hcode, hmatched hwords⟩

def brokenName : Native.Ast where
  file := "broken.h"
  decls := #[{ kind := .var { type := ⟨0⟩ }, name := "a\n\x7b\nb" }]
  types := #[.ofBuiltin .int]
  stmts := #[{ kind := .decls [⟨0⟩] }]

/-- A name with line breaks may bring a brace that is never closed. -/
theorem brace_of_name_unmatched : ∃ env text c', prepare {} brokenName = .ok env ∧
    (writeStmt ⟨0⟩ {}).run env {} = (.ok { output := text }, c') ∧
    Code.ofText text = ["int a", "\x7b", "b;", ""] ∧ ¬ (Code.ofText text).IsMatched := by
  have hunmatched : ¬ Code.IsMatched ["int a", "\x7b", "b;", ""] := by
    rintro (_ | ⟨-, _ | ⟨hline, -⟩⟩)
    obtain ⟨inner, closing, behind, hrest, -, hcloses⟩ := hline 0 rfl
    have hclosing : closing ∈ ["b;", ""] := by simp [hrest]
    simp only [List.mem_cons, List.not_mem_nil, or_false] at hclosing
    rcases hclosing with rfl | rfl
    · simp [Code.ClosesAt] at hcloses
    · simp [Code.ClosesAt] at hcloses
  obtain ⟨env, text, c', henv, hrun, htext⟩ : ∃ env text c', prepare {} brokenName = .ok env ∧
      (writeStmt ⟨0⟩ {}).run env {} = (.ok { output := text }, c') ∧
      Code.ofText text = ["int a", "\x7b", "b;", ""] := ⟨_, _, _, rfl, rfl, by decide⟩
  exact ⟨env, text, c', henv, hrun, htext, htext ▸ hunmatched⟩

end Interop.Binding

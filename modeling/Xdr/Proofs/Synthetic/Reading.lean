/-
What the schemas for measurements say.

A group of lines is five definitions. The lines are laid out as the lexemes of these, so a schema of any size is read as
the definitions of its groups in order; their names are numbered, so no two are the same and all are accepted.
- `lexemes_groupLines`, `text_groupLines`: the lines of a group are spaced lexemes, and these are its definitions.
- `parse_schema`: a schema is read as the definitions of its groups.
- `acceptable_definitions`: the definitions of all groups go together.
-/
import Xdr.Proofs.Emission.Malformed
import Xdr.Proofs.Schema.Numbered
import Xdr.Proofs.Table.Acceptance
import Xdr.Proofs.Token.Lines
import Xdr.Synthetic

namespace Xdr.Synthetic

/-! ## The definitions of a group -/

/-- `MAX_0`, `MAX_1` and so on -/
def maxNames : Series := { before := "MAX_" }

def stringNames : Series := { before := "Name" }

def kindNames : Series := { before := "Kind" }

/-- `K0_A`, `K1_A` and so on -/
def tagANames : Series := { before := "K", behind := "_A" }

def tagBNames : Series := { before := "K", behind := "_B" }

def tagCNames : Series := { before := "K", behind := "_C" }

def itemNames : Series := { before := "Item" }

def bodyNames : Series := { before := "Body" }

/-- the field of an item that points to the item before it, if there is one -/
def prevField (i : Nat) : List Decl :=
  if i > 0 then [⟨"prev", itemNames.name (i - 1), .optional, "", none⟩] else []

def itemFields (i : Nat) : List Decl :=
  [⟨"name", stringNames.name i, .scalar, "", none⟩, ⟨"id", "unsigned hyper", .scalar, "", none⟩,
    ⟨"digest", "opaque", .array, "32", none⟩, ⟨"values", "int", .vec, maxNames.name i, none⟩] ++ prevField i

def kindTags (i : Nat) : List EnumTag := [⟨tagANames.name i, "0"⟩, ⟨tagBNames.name i, "1"⟩, ⟨tagCNames.name i, "2"⟩]

def bodyArms (i : Nat) : List Arm :=
  [⟨[tagANames.name i], false, ⟨"item", itemNames.name i, .scalar, "", none⟩⟩,
    ⟨[tagBNames.name i, tagCNames.name i], false, ⟨"weight", "double", .scalar, "", none⟩⟩, ⟨[], true, .void⟩]

def maxConst (i : Nat) : Definition := .const (maxNames.name i) (toString (16 + i))

def stringType (i : Nat) : Definition := .typedef ⟨stringNames.name i, "string", .scalar, maxNames.name i, none⟩

def kindEnum (i : Nat) : Definition := .enum (kindNames.name i) (kindTags i)

def itemStruct (i : Nat) : Definition := .struct (itemNames.name i) (itemFields i)

def bodyUnion (i : Nat) : Definition := .union (bodyNames.name i) "kind" (kindNames.name i) (bodyArms i) true

def groupDefinitions (i : Nat) : List Definition := [maxConst i, stringType i, kindEnum i, itemStruct i, bodyUnion i]

/-- the definitions of so many groups -/
def definitions (groups : Nat) : List Definition := (List.range groups).flatMap groupDefinitions

/-! ## Rules -/

theorem mem_prevField {i : Nat} {d : Decl} (h : d ∈ prevField i) :
    d = ⟨"prev", itemNames.name (i - 1), .optional, "", none⟩ := by
  unfold prevField at h
  split_ifs at h
  · exact List.mem_singleton.1 h
  · cases h

/-- no name is a reserved word, or several words -/
theorem ne_of_isName {x w : String} (hx : isName x = true) (hw : isName w = false) : x ≠ w := by
  rintro rfl
  rw [hx] at hw
  cases hw

theorem isNamedUse_of_isName {type bound : String} {q : Qualifier} (h : isName type = true)
    (hq : q.takes bound = true) : isNamedUse type q bound = true := by
  rw [isNamedUse, if_neg (ne_of_isName h (by decide)), if_neg (ne_of_isName h (by decide)), isTypeName, h, hq,
    Bool.or_true]
  rfl

theorem isValue_of_isName {x : String} (h : isName x = true) : isValue x = true := by
  rw [isValue, h, Bool.or_true]

theorem grammatical_itemFields (i : Nat) : ∀ d ∈ itemFields i, d.grammatical = true := by
  have hmax := isValue_of_isName (maxNames.isName_name i)
  rw [itemFields, List.forall_mem_append]
  constructor
  · simp only [List.forall_mem_cons, Decl.grammatical, Bool.and_eq_true]
    refine ⟨⟨by decide, isNamedUse_of_isName (stringNames.isName_name i) rfl⟩, ⟨by decide, by decide⟩,
      ⟨by decide, by decide⟩, ⟨by decide, ?_⟩, List.forall_mem_nil _⟩
    simp [isNamedUse, Qualifier.takes, hmax]
    decide
  · intro d hd
    rw [mem_prevField hd, Decl.grammatical, isNamedUse_of_isName (itemNames.isName_name _) rfl]
    decide

theorem grammatical_bodyArms (i : Nat) : ∀ a ∈ bodyArms i, a.grammatical = true := by
  have hvalue : ∀ s : Series, isValue (s.name i) = true := fun s => isValue_of_isName (s.isName_name i)
  have hitem : isNamedUse (itemNames.name i) .scalar "" = true := isNamedUse_of_isName (itemNames.isName_name i) rfl
  have hid : isName "item" = true ∧ isName "weight" = true := by decide
  have hdouble : isNamedUse "double" .scalar "" = true := by decide
  have hvoid : Decl.void.isNothing = true := rfl
  simp [bodyArms, Arm.grammatical, labelled, Decl.grammatical, hvalue, hitem, hid, hdouble, hvoid]

theorem grammatical_group (i : Nat) : ∀ d ∈ groupDefinitions i, d.grammatical = true := by
  have hstring : isNamedUse "string" .scalar (maxNames.name i) = true := by
    simp [isNamedUse, Primitive.idlName, Qualifier.takes, isValue_of_isName (maxNames.isName_name i)]
  have hkind : isDiscriminantType (kindNames.name i) = true := by
    simp [isDiscriminantType, isTypeName, kindNames.isName_name]
  have hvalues : isValue "0" = true ∧ isValue "1" = true ∧ isValue "2" = true := by decide
  have hdiscriminant : isName "kind" = true := by decide
  simp only [groupDefinitions, maxConst, stringType, kindEnum, itemStruct, bodyUnion, List.forall_mem_cons,
    Definition.grammatical, Definition.id, Definition.grammaticalBody, Series.isName_name, Bool.true_and]
  refine ⟨?_, ?_, ?_, ?_, ?_, List.forall_mem_nil _⟩
  · rw [isValue, isNumber_toString, Bool.true_or]
  · rw [Decl.grammatical, Series.isName_name, hstring]
    rfl
  · simp [kindTags, EnumTag.grammatical, Series.isName_name, hvalues]
  · exact grammaticalFields_iff.2 (grammatical_itemFields i)
  · rw [hdiscriminant, hkind, grammaticalArms_iff.2 (grammatical_bodyArms i)]
    rfl

/-! ## The lines of a group -/

def tight (l : Lexeme) : List Char × Lexeme := ([], l)

/-- behind a blank -/
def loose (l : Lexeme) : List Char × Lexeme := ([' '], l)

def indented (l : Lexeme) : List Char × Lexeme := ([' ', ' ', ' ', ' '], l)

def prevLines (i : Nat) : List Line :=
  if i > 0 then [[indented (.word (itemNames.name (i - 1))), loose (.punct .star), tight (.word "prev"),
    tight (.punct .semicolon)]] else []

def groupLines (i : Nat) : List Line :=
  [[tight (.word "const"), loose (.word (maxNames.name i)), loose (.punct .equals),
      loose (.number (toString (16 + i))), tight (.punct .semicolon)],
    [tight (.word "typedef"), loose (.word "string"), loose (.word (stringNames.name i)), tight (.punct .langle),
      tight (.word (maxNames.name i)), tight (.punct .rangle), tight (.punct .semicolon)],
    [tight (.word "enum"), loose (.word (kindNames.name i)), loose (.punct .lbrace),
      loose (.word (tagANames.name i)), loose (.punct .equals), loose (.number "0"), tight (.punct .comma),
      loose (.word (tagBNames.name i)), loose (.punct .equals), loose (.number "1"), tight (.punct .comma),
      loose (.word (tagCNames.name i)), loose (.punct .equals), loose (.number "2"), loose (.punct .rbrace),
      tight (.punct .semicolon)],
    [tight (.word "struct"), loose (.word (itemNames.name i)), loose (.punct .lbrace)],
    [indented (.word (stringNames.name i)), loose (.word "name"), tight (.punct .semicolon)],
    [indented (.word "unsigned"), loose (.word "hyper"), loose (.word "id"), tight (.punct .semicolon)],
    [indented (.word "opaque"), loose (.word "digest"), tight (.punct .lbracket), tight (.number "32"),
      tight (.punct .rbracket), tight (.punct .semicolon)],
    [indented (.word "int"), loose (.word "values"), tight (.punct .langle), tight (.word (maxNames.name i)),
      tight (.punct .rangle), tight (.punct .semicolon)]] ++
  prevLines i ++
  [[tight (.punct .rbrace), tight (.punct .semicolon)],
    [tight (.word "union"), loose (.word (bodyNames.name i)), loose (.word "switch"), loose (.punct .lparen),
      tight (.word (kindNames.name i)), loose (.word "kind"), tight (.punct .rparen), loose (.punct .lbrace)],
    [tight (.word "case"), loose (.word (tagANames.name i)), tight (.punct .colon)],
    [indented (.word (itemNames.name i)), loose (.word "item"), tight (.punct .semicolon)],
    [tight (.word "case"), loose (.word (tagBNames.name i)), tight (.punct .colon)],
    [tight (.word "case"), loose (.word (tagCNames.name i)), tight (.punct .colon)],
    [indented (.word "double"), loose (.word "weight"), tight (.punct .semicolon)],
    [tight (.word "default"), tight (.punct .colon)],
    [indented (.word "void"), tight (.punct .semicolon)],
    [tight (.punct .rbrace), tight (.punct .semicolon)]]

theorem lineText_eq_iff {line : Line} {s : String} : lineText line = s ↔ lineChars line = s.toList := by
  rw [lineText, ← String.toList_inj, String.toList_ofList]

/-- the lines of a group, as they are laid out -/
theorem text_groupLines (i : Nat) : (groupLines i).map lineText = group i := by
  have hstring : ∀ s : String, toString s = s := fun _ => rfl
  unfold groupLines group prevLines
  split_ifs <;>
    simp [lineText_eq_iff, lineChars, tight, loose, indented, Lexeme.chars, Punct.char, Series.name, maxNames,
      stringNames, kindNames, tagANames, tagBNames, tagCNames, itemNames, bodyNames, hstring]

theorem isSpaced_groupLines (i : Nat) : ∀ line ∈ groupLines i, isSpaced line = true := by
  rw [← List.all_eq_true]
  unfold groupLines prevLines
  split_ifs <;> rfl

theorem valueLexeme_of_isName {x : String} (h : isName x = true) : valueLexeme x = .word x := by
  refine if_neg fun hnumber => ?_
  rw [isName_of_isNumber hnumber] at h
  cases h

theorem namedLexemes_of_isName {id type bound : String} {q : Qualifier} (h : isName type = true) :
    namedLexemes id type q bound = .word type :: declaratorLexemes id bound q := by
  have hne : ∀ {w : String}, isName w = false → type ≠ w := ne_of_isName h
  rw [namedLexemes, typeLexemes, if_neg (hne (by decide)), if_neg (hne (by decide)), if_neg (hne (by decide)),
    if_neg (hne (by decide))]
  rfl

theorem lexemes_prevLines (i : Nat) : (prevLines i).flatMap lineLexemes = fieldLexemes (prevField i) := by
  unfold prevLines prevField
  split_ifs
  · simp [fieldLexemes, Decl.lexemes, namedLexemes_of_isName, Series.isName_name, declaratorLexemes, lineLexemes,
      tight, loose, indented]
  · rfl

/-- **The lines of a group are the text of its definitions.** -/
theorem lexemes_groupLines (i : Nat) :
    (groupLines i).flatMap lineLexemes = (groupDefinitions i).flatMap Definition.lexemes := by
  have hbound : maxNames.name i ≠ "" := isName_ne_empty (maxNames.isName_name i)
  have hnumber : valueLexeme (16 + i).repr = .number (16 + i).repr := if_pos (isNumber_toString (16 + i))
  have hvalues : ∀ v ∈ ["0", "1", "2", "32"], valueLexeme v = .number v := by decide
  have hstring : ∀ id q bound, namedLexemes id "string" q bound = .word "string" :: declaratorLexemes id bound .vec :=
    fun _ _ _ => rfl
  have hplain : ∀ type ∈ ["opaque", "int", "double"], ∀ id q bound,
      namedLexemes id type q bound = .word type :: declaratorLexemes id bound q := by
    simp only [List.forall_mem_cons]
    exact ⟨fun _ _ _ => rfl, fun _ _ _ => rfl, fun _ _ _ => rfl, List.forall_mem_nil _⟩
  have hunsigned : ∀ id q bound, namedLexemes id "unsigned hyper" q bound =
      .word "unsigned" :: .word "hyper" :: declaratorLexemes id bound q := fun _ _ _ => rfl
  have hvoid : Decl.void.lexemes = [.word "void"] := rfl
  simp [groupLines, groupDefinitions, maxConst, stringType, kindEnum, kindTags, itemStruct, itemFields, bodyUnion,
    bodyArms, Definition.lexemes, Definition.headLexemes, Definition.bodyLexemes, Definition.kind, Definition.id,
    fieldLexemes, armLexemes, labelLexemes, EnumTag.lexemes, commaSeparated, Decl.lexemes, declaratorLexemes,
    lineLexemes, tight, loose, indented, lexemes_prevLines, namedLexemes_of_isName, valueLexeme_of_isName,
    Series.isName_name, hbound, hnumber, hvalues, hstring, hplain, hunsigned, hvoid]

theorem wellSpelled_groupLines {i : Nat} {line : Line} (h : line ∈ groupLines i) :
    ∀ l ∈ lineLexemes line, l.wellSpelled = true := by
  intro l hl
  have hmem : l ∈ (groupDefinitions i).flatMap Definition.lexemes := by
    rw [← lexemes_groupLines]
    exact List.mem_flatMap.2 ⟨line, h, hl⟩
  obtain ⟨d, hd, hl⟩ := List.mem_flatMap.1 hmem
  exact List.all_eq_true.1 (Definition.wellSpelled_lexemes (grammatical_group i d hd)) l hl

/-! ## The whole schema -/

variable (n : Nat)

theorem schema_eq : schema n =
    String.join (((List.range n).flatMap groupLines).map fun line => lineText line ++ "\n") := by
  have hgroup : group = fun i => (groupLines i).map lineText := funext fun i => (text_groupLines i).symm
  rw [schema, hgroup, ← List.map_flatMap, List.map_map]
  rfl

theorem scans_schema : Scans (schema n) ((definitions n).flatMap Definition.lexemes) := by
  have hlexemes : ((List.range n).flatMap groupLines).flatMap lineLexemes =
      (definitions n).flatMap Definition.lexemes := by
    rw [definitions, List.flatMap_assoc, List.flatMap_assoc]
    exact List.flatMap_congr fun i _ => lexemes_groupLines i
  rw [schema_eq, ← hlexemes]
  refine .unlines fun line hline => ?_
  obtain ⟨i, -, hline⟩ := List.mem_flatMap.1 hline
  exact scans_line (wellSpelled_groupLines hline) (isSpaced_groupLines i line hline)

theorem grammatical_definitions : ∀ d ∈ definitions n, d.grammatical = true := by
  intro d hd
  obtain ⟨i, -, hd⟩ := List.mem_flatMap.1 hd
  exact grammatical_group i d hd

/-- **A schema of any size is read as the definitions of its groups.** -/
theorem parse_schema : ((scan (schema n)).bind fun s => Grammar.parse s.tokens) = .ok (definitions n) := by
  obtain ⟨s, hscan, hlexemes⟩ := scans_schema n
  exact Table.bind_parse_of_scan hscan (Grammar.parse_of_lexemes (grammatical_definitions n) hlexemes)

theorem length_definitions : (definitions n).length = 5 * n := by
  simp [definitions, List.length_flatMap, groupDefinitions, Nat.mul_comm]

/-! ## Names -/

/-- the names that the definitions of groups take -/
def taken : List Series :=
  [maxNames, stringNames, kindNames, tagANames, tagBNames, tagCNames, itemNames, bodyNames]

/-- nothing is declared inline -/
theorem body_eq_none {i : Nat} {d : Definition} (hd : d ∈ groupDefinitions i) : ∀ m ∈ d.decls, m.body = none := by
  simp only [groupDefinitions, List.mem_cons, List.not_mem_nil, or_false] at hd
  rcases hd with rfl | rfl | rfl | rfl | rfl
  · exact List.forall_mem_nil _
  · exact List.forall_mem_singleton.2 rfl
  · exact List.forall_mem_nil _
  · refine List.forall_mem_append.2 ⟨by simp, fun m hm => ?_⟩
    rw [mem_prevField hm]
  · simp [bodyUnion, Definition.decls, bodyArms, Decl.void]

theorem bodies_eq {i : Nat} {d : Definition} (hd : d ∈ groupDefinitions i) : d.bodies = [d] := by
  rw [d.bodies_eq, List.flatMap_eq_nil_iff.2]
  intro m hm
  rw [Decl.bodies_eq, body_eq_none hd m hm]
  rfl

theorem names_groupDefinitions (i : Nat) :
    (groupDefinitions i).flatMap Definition.names = taken.map fun s => s.name i := by
  have hnames : (groupDefinitions i).map Definition.names = (groupDefinitions i).map fun d => d.id :: d.ownTags := by
    refine List.map_congr_left fun d hd => ?_
    rw [Definition.names, Definition.enumTags, bodies_eq hd, List.flatMap_singleton]
  rw [List.flatMap_def, hnames]
  rfl

theorem nodup_names_definitions : ((definitions n).flatMap Definition.names).Nodup := by
  have hnames : (definitions n).flatMap Definition.names =
      (List.range n).flatMap fun i => taken.map fun s => s.name i := by
    rw [definitions, List.flatMap_assoc]
    exact List.flatMap_congr fun i _ => names_groupDefinitions i
  rw [hnames]
  exact nodup_names (by decide) n

/-- tags of one group are different -/
theorem nodup_tags (i : Nat) : ((kindTags i).map EnumTag.id).Nodup := by
  have hdistinct : ([tagANames, tagBNames, tagCNames].map Series.parts).Nodup := by decide
  exact Series.nodup_map_name hdistinct i

theorem lawful_group (i : Nat) : ∀ d ∈ groupDefinitions i, d.Lawful := by
  simp only [groupDefinitions, List.forall_mem_cons]
  refine ⟨trivial, trivial, nodup_tags i, ?_, ?_, List.forall_mem_nil _⟩
  · change ((itemFields i).map Decl.id).Nodup
    unfold itemFields prevField
    split_ifs <;> simp
  · have hitem : itemNames.name i ≠ "void" := ne_of_isName (itemNames.isName_name i) (by decide)
    refine ⟨nodup_tags i, by simp [bodyArms], ?_⟩
    simp [members, bodyArms, Decl.isVoid, Decl.void, Primitive.idlName, hitem]

/-- **The definitions of all groups go together.** -/
theorem acceptable_definitions : Acceptable (definitions n) where
  lawful := by
    intro d hd e he
    obtain ⟨i, -, hd⟩ := List.mem_flatMap.1 hd
    rw [← Definition.mem_bodies_iff, bodies_eq hd, List.mem_singleton] at he
    rw [he]
    exact lawful_group i d hd
  distinct := (List.map_append_flatMap_perm _ Definition.id Definition.enumTags).nodup_iff.2 (nodup_names_definitions n)

/-- **A schema of any size is accepted as it is read.** -/
theorem exists_table : ∃ t : Table, Table.empty.addSource (schema n) = (t, .ok (5 * n)) ∧ t.Reachable ∧
    t.definitions.toList = definitions n := by
  rw [← length_definitions]
  exact exists_table_of_parse (parse_schema n) (acceptable_definitions n)

end Xdr.Synthetic

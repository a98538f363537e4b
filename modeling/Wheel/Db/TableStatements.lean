import Wheel.Core.Node
import Wheel.Core.Validate
import Wheel.Text.SqlGrammar
import Wheel.Text.Utf8
import Mathlib

/-!
# The statements behind table nodes

The texts of the statements that create, extend, read and write the table of a node, with the names
of the columns as they are. `usable_iff` says for which configurations sqlite reads each of them as
the statement that is meant: no column may start with a digit, and none may be a word that the
grammar keeps for itself.
-/

namespace Wheel

namespace TableStatements

open Sql

/-! ## The texts -/

def keyColumn : List Char := tableKeyColumn.toList

/-- The table of a node. -/
def tableOf (name : NodeName) : List Char := "t_".toList ++ name.raw.toList

def columnNames (cfg : TableConfig) : List (List Char) := cfg.columns.map fun c => c.name.raw.toList

def declaration (c : Column) : List Char :=
  c.name.raw.toList ++ ' ' :: c.columnType.sqliteType.toList

/-- What stands behind the name of the table when it is created. -/
def columnsText (cfg : TableConfig) : List Char :=
  " (\n  ".toList ++ (keyColumn ++ (" TEXT PRIMARY KEY".toList ++
    (cfg.columns.flatMap (fun c => ",\n  ".toList ++ declaration c) ++ "\n)".toList)))

def createText (table : List Char) (cfg : TableConfig) : List Char :=
  "CREATE TABLE ".toList ++ (table ++ columnsText cfg)

def ensureText (table : List Char) (cfg : TableConfig) : List Char :=
  "CREATE TABLE IF NOT EXISTS ".toList ++ (table ++ columnsText cfg)

def addColumnText (table : List Char) (c : Column) : List Char :=
  "ALTER TABLE ".toList ++ (table ++ (" ADD COLUMN ".toList ++ declaration c))

/-- The columns of a select. -/
def selectedText (cfg : TableConfig) : List Char :=
  if cfg.columns = [] then keyColumn
  else keyColumn ++ ',' :: [','].intercalate (columnNames cfg)

def getRowText (table : List Char) (cfg : TableConfig) : List Char :=
  "SELECT ".toList ++ (selectedText cfg ++ (" FROM ".toList ++ (table ++ (" WHERE ".toList ++
    (keyColumn ++ " = ?1".toList)))))

def listRowsText (table : List Char) (cfg : TableConfig) : List Char :=
  "SELECT ".toList ++ (selectedText cfg ++ (" FROM ".toList ++ (table ++ (" ORDER BY ".toList ++
    (keyColumn ++ " LIMIT ?1 OFFSET ?2".toList)))))

def listKeysText (table : List Char) : List Char :=
  "SELECT ".toList ++ (keyColumn ++ (" FROM ".toList ++ (table ++ (" WHERE ".toList ++ (keyColumn ++
    (" LIKE ?1 ESCAPE '\\' ORDER BY ".toList ++ (keyColumn ++ " LIMIT ?2 OFFSET ?3".toList)))))))

def assignment (c : List Char) : List Char := c ++ ("=excluded.".toList ++ c)

/-- The row of a table without columns is its key. -/
def putKeyText (table : List Char) : List Char :=
  "INSERT INTO ".toList ++ (table ++ (" (".toList ++ (keyColumn ++
    (") VALUES (?) ON CONFLICT(".toList ++ (keyColumn ++ ") DO NOTHING".toList)))))

def putColumnsText (table : List Char) (cols : List (List Char)) : List Char :=
  "INSERT INTO ".toList ++ (table ++ (" (".toList ++ (keyColumn ++ ',' ::
    ([','].intercalate cols ++ (") VALUES (".toList ++
      ([','].intercalate (List.replicate (cols.length + 1) ['?']) ++
        (") ON CONFLICT(".toList ++ (keyColumn ++ (") DO UPDATE SET ".toList ++
          [','].intercalate (cols.map assignment))))))))))

def putRowText (table : List Char) (cfg : TableConfig) : List Char :=
  if columnNames cfg = [] then putKeyText table else putColumnsText table (columnNames cfg)

/-! ## What they are to mean -/

def columnDef (c : Column) : ColumnDef where
  name := c.name.raw.toList
  type := c.columnType.sqliteType.toList
  primaryKey := false

def columnDefs (cfg : TableConfig) : List ColumnDef :=
  ⟨keyColumn, "TEXT".toList, true⟩ :: cfg.columns.map columnDef

/-- Every statement on the table of a node is read as it is meant. -/
structure Usable (name : NodeName) (cfg : TableConfig) : Prop where
  create : IsCreateTable (lexemes (createText (tableOf name) cfg)) false (tableOf name)
    (columnDefs cfg)
  ensure : IsCreateTable (lexemes (ensureText (tableOf name) cfg)) true (tableOf name)
    (columnDefs cfg)
  addColumn : ∀ c ∈ cfg.columns,
    IsAddColumn (lexemes (addColumnText (tableOf name) c)) (tableOf name) (columnDef c)
  getRow : IsSelect (lexemes (getRowText (tableOf name) cfg)) (keyColumn :: columnNames cfg)
    (tableOf name) (some (.equals keyColumn "1".toList)) none
  listRows : IsSelect (lexemes (listRowsText (tableOf name) cfg)) (keyColumn :: columnNames cfg)
    (tableOf name) none (some ⟨keyColumn, "1".toList, "2".toList⟩)
  listKeys : IsSelect (lexemes (listKeysText (tableOf name))) [keyColumn] (tableOf name)
    (some (.like keyColumn "1".toList "'\\'".toList)) (some ⟨keyColumn, "2".toList, "3".toList⟩)
  putRow : IsUpsert (lexemes (putRowText (tableOf name) cfg)) (tableOf name)
    (keyColumn :: columnNames cfg) keyColumn (columnNames cfg)

/-- An identifier that is a bare name of sqlite's, and no expression of its own. -/
def BareName (c : Ident) : Prop :=
  (∀ d, c.raw.toList.head? = some d → d.isDigit = false) ∧ c.raw ∉ reservedWords ∧
    c.raw ∉ expressionWords

/-! ## Names -/

/-- The characters of an identifier. -/
theorem ident_chars (c : Ident) : ∃ d x, c.raw.toList = d :: x ∧ isNameFirst d = true ∧
    ∀ e ∈ x, (isNameFirst e || e == '_') = true := by
  have hvalid := c.valid
  unfold validateIdent at hvalid
  cases hraw : c.raw.toList with
  | nil => simp [hraw] at hvalid
  | cons d x =>
      rw [hraw] at hvalid
      dsimp only at hvalid
      split_ifs at hvalid with hlen hfirst
      cases hfind : x.find? fun e => !(isNameFirst e || e == '_') with
      | some e =>
          rw [hfind] at hvalid
          cases hvalid
      | none =>
          refine ⟨d, x, rfl, by simpa using hfirst, fun e he => ?_⟩
          have hno := List.find?_eq_none.1 hfind e he
          simpa only [Bool.not_eq_true, Bool.not_eq_false'] using hno

theorem isWordChar_of_isNameFirst {c : Char} (h : isNameFirst c = true) : isWordChar c = true := by
  rw [isNameFirst, Bool.or_eq_true] at h
  rcases h with h | h
  · apply isWordChar_of_isWordStart
    rw [isWordStart, Char.isAlpha, h]
    simp
  · exact isWordChar_of_isDigit h

theorem toLower_of_isNameFirst {c : Char} (h : (isNameFirst c || c == '_') = true) :
    c.toLower = c := by
  have hupper : ¬(65 ≤ c.toNat ∧ c.toNat ≤ 90) := by
    simp only [isNameFirst, Char.isLower, Char.isDigit, Bool.or_eq_true, Bool.and_eq_true,
      decide_eq_true_eq, beq_iff_eq, ge_iff_le, UInt32.le_iff_toNat_le] at h
    rcases h with (h | h) | rfl
    · have hcode : c.toNat = c.val.toNat := rfl
      have ha : ('a'.val).toNat = 97 := rfl
      omega
    · have hcode : c.toNat = c.val.toNat := rfl
      have hnine : ('9'.val).toNat = 57 := rfl
      omega
    · decide
  apply Char.toNat_inj.1
  rw [Text.toNat_toLower, if_neg hupper]

theorem map_toLower_ident (c : Ident) : c.raw.toList.map Char.toLower = c.raw.toList := by
  obtain ⟨d, x, hraw, hd, hx⟩ := ident_chars c
  rw [hraw]
  refine (List.map_congr_left fun e he => ?_).trans (List.map_id _)
  rcases List.mem_cons.1 he with rfl | he
  · exact toLower_of_isNameFirst (by rw [hd, Bool.true_or])
  · exact toLower_of_isNameFirst (hx e he)

theorem not_isWordStart_of_isDigit {c : Char} (h : c.isDigit = true) : isWordStart c = false := by
  have hcode : c.toNat = c.val.toNat := rfl
  have hzero : ('0'.val).toNat = 48 := rfl
  have hnine : ('9'.val).toNat = 57 := rfl
  have hA : ('A'.val).toNat = 65 := rfl
  have ha : ('a'.val).toNat = 97 := rfl
  simp only [Char.isDigit, Bool.and_eq_true, decide_eq_true_eq, ge_iff_le,
    UInt32.le_iff_toNat_le] at h
  have hunder : c ≠ '_' := by
    rintro rfl
    exact absurd h (by decide)
  simp only [isWordStart, Char.isAlpha, Char.isUpper, Char.isLower, Bool.or_eq_false_iff,
    Bool.and_eq_false_iff, decide_eq_false_iff_not, ge_iff_le, UInt32.le_iff_toNat_le]
  exact ⟨⟨⟨by omega, by omega⟩, hunder⟩, by omega⟩

theorem isWord_ident_iff (c : Ident) :
    isWord c.raw.toList = true ↔ ∀ d, c.raw.toList.head? = some d → d.isDigit = false := by
  obtain ⟨d, x, hraw, hd, hx⟩ := ident_chars c
  rw [hraw, isWord, Bool.and_eq_true]
  constructor
  · rintro ⟨hstart, -⟩ e he
    obtain rfl : d = e := Option.some_inj.1 he
    rw [Bool.eq_false_iff]
    intro hdigit
    exact absurd hstart (Bool.eq_false_iff.1 (not_isWordStart_of_isDigit hdigit))
  · intro h
    refine ⟨?_, List.all_eq_true.2 fun e he => ?_⟩
    · have hdigit := h d rfl
      rw [isNameFirst, hdigit, Bool.or_false] at hd
      rw [isWordStart, Char.isAlpha, hd]
      simp
    · have hchar := hx e he
      rw [Bool.or_eq_true, beq_iff_eq] at hchar
      rcases hchar with hchar | rfl
      · exact isWordChar_of_isNameFirst hchar
      · decide

/-- An identifier is compared with the words of the grammar as it is. -/
theorem not_word_iff (c : Ident) (words : List String) :
    (∀ w ∈ words, c.raw.toList.map Char.toLower ≠ w.toList) ↔ c.raw ∉ words := by
  rw [map_toLower_ident]
  constructor
  · exact fun h hmem => h _ hmem rfl
  · intro h w hw heq
    rw [String.toList_inj.1 heq] at h
    exact h hw

theorem isColumn_iff (c : Ident) : IsColumn c.raw.toList ↔ BareName c := by
  rw [IsColumn, IsName, isWord_ident_iff, not_word_iff, not_word_iff, BareName, and_assoc]

theorem isColumn_key : IsColumn keyColumn := by
  decide +kernel

/-- The name of a table is a word that no keyword is. -/
theorem isName_tableOf {name : NodeName} (h : validateTableName name.raw = .ok ()) :
    IsName (tableOf name) := by
  have hdash : '-' ∉ name.raw.toList := by
    intro hmem
    unfold validateTableName at h
    rw [name.valid] at h
    cases hfind : name.raw.toList.find? fun c => c == '-' with
    | none => exact List.find?_eq_none.1 hfind '-' hmem rfl
    | some d =>
        rw [hfind] at h
        cases hhead : name.raw.toList.head? with
        | none => simp [hhead, bind, Except.bind] at h
        | some c =>
            cases hlower : c.isLower <;> simp [hhead, hlower, bind, Except.bind] at h
  constructor
  · rw [tableOf, isWord.eq_def]
    simp only [String.reduceToList, List.cons_append, List.nil_append]
    rw [Bool.and_eq_true]
    refine ⟨by decide, List.all_eq_true.2 fun c hc => ?_⟩
    rcases List.mem_cons.1 hc with rfl | hc
    · decide
    · have hchar := name.isNameChar_of_mem hc
      rw [isNameChar, Bool.or_eq_true, Bool.or_eq_true, beq_iff_eq, beq_iff_eq] at hchar
      rcases hchar with (hchar | rfl) | rfl
      · exact isWordChar_of_isNameFirst hchar
      · exact absurd hc hdash
      · decide
  · intro w hw heq
    have hshort : ∀ w ∈ reservedWords, w.toList.take 2 ≠ ['t', '_'] := by
      decide +kernel
    apply hshort w hw
    rw [← heq, tableOf, List.map_append, List.take_append_of_le_length (by simp)]
    rfl

theorem isName_sqliteType (ty : ColumnType) : IsName ty.sqliteType.toList := by
  cases ty <;> decide +kernel

/-! ## The lexemes of the texts -/

section Lexemes

variable {table : List Char} {cfg : TableConfig}

theorem isWord_key : isWord keyColumn = true := by
  decide

/-- Columns whose names sqlite reads as words. -/
def WordColumns (cfg : TableConfig) : Prop := ∀ c ∈ cfg.columns, isWord c.name.raw.toList = true

theorem lexemes_declaration {c : Column} (h : isWord c.name.raw.toList = true) {y : List Char}
    (hy : startsApart y = true) :
    lexemes (declaration c ++ y) = (columnDef c).lexemes ++ lexemes y := by
  have hspace : ∀ z, lexemes (' ' :: z) = lexemes z := by
    intro z
    rw [lexemes_cons]
    rfl
  rw [declaration, List.append_assoc, List.cons_append, lexemes_word_append h rfl, hspace,
    lexemes_word_append (isName_sqliteType _).1 hy]
  rfl

theorem lexemes_declarations {columns : List Column}
    (h : ∀ c ∈ columns, isWord c.name.raw.toList = true) :
    lexemes (columns.flatMap (fun c => ",\n  ".toList ++ declaration c) ++ "\n)".toList) =
      (columns.flatMap fun c => .sign ',' :: (columnDef c).lexemes) ++ [.sign ')'] := by
  induction columns with
  | nil => decide +kernel
  | cons c columns ih =>
      have hapart : startsApart (columns.flatMap (fun c => ",\n  ".toList ++ declaration c) ++
          "\n)".toList) = true := by
        cases columns <;> rfl
      have hcomma : lexemes ",\n  ".toList = [.sign ','] := rfl
      rw [List.flatMap_cons, List.flatMap_cons, List.append_assoc, List.append_assoc,
        lexemes_append_of_endsApart (by decide), hcomma,
        lexemes_declaration (h c (.head _)) hapart, ih fun d hd => h d (.tail _ hd)]
      simp

theorem lexemes_columnsText (h : WordColumns cfg) :
    lexemes (columnsText cfg) = parens (commaList ((columnDefs cfg).map ColumnDef.lexemes)) := by
  have hopen : lexemes " (\n  ".toList = [.sign '('] := rfl
  have htype : lexemes " TEXT PRIMARY KEY".toList =
      [keyword "TEXT", keyword "PRIMARY", keyword "KEY"] := rfl
  have hapart : startsApart (cfg.columns.flatMap (fun c => ",\n  ".toList ++ declaration c) ++
      "\n)".toList) = true := by
    cases cfg.columns <;> rfl
  rw [columnsText, lexemes_append_of_endsApart (by decide), hopen,
    lexemes_word_append isWord_key rfl, lexemes_append_of_startsApart (by decide) hapart,
    htype, lexemes_declarations h]
  simp [parens, commaList, columnDefs, ColumnDef.lexemes, keyword, List.flatMap_map]

theorem startsApart_columnsText (cfg : TableConfig) : startsApart (columnsText cfg) = true := by
  have hopen : " (\n  ".toList = ' ' :: "(\n  ".toList := rfl
  rw [columnsText, hopen]
  rfl

theorem lexemes_createText (ht : isWord table = true) (h : WordColumns cfg) :
    lexemes (createText table cfg) = keyword "CREATE" :: keyword "TABLE" :: .word table ::
      parens (commaList ((columnDefs cfg).map ColumnDef.lexemes)) := by
  have hcreate : lexemes "CREATE TABLE ".toList = [keyword "CREATE", keyword "TABLE"] :=
    rfl
  change lexemes ("CREATE TABLE ".toList ++ (table ++ columnsText cfg)) = _
  rw [lexemes_append_of_endsApart (by decide), hcreate,
    lexemes_word_append ht (startsApart_columnsText cfg), lexemes_columnsText h]
  simp only [List.cons_append, List.nil_append]

theorem lexemes_ensureText (ht : isWord table = true) (h : WordColumns cfg) :
    lexemes (ensureText table cfg) = keyword "CREATE" :: keyword "TABLE" :: keyword "IF" ::
      keyword "NOT" :: keyword "EXISTS" :: .word table ::
        parens (commaList ((columnDefs cfg).map ColumnDef.lexemes)) := by
  have hcreate : lexemes "CREATE TABLE IF NOT EXISTS ".toList =
      [keyword "CREATE", keyword "TABLE", keyword "IF", keyword "NOT", keyword "EXISTS"] :=
    rfl
  change lexemes ("CREATE TABLE IF NOT EXISTS ".toList ++ (table ++ columnsText cfg)) = _
  rw [lexemes_append_of_endsApart (by decide), hcreate,
    lexemes_word_append ht (startsApart_columnsText cfg), lexemes_columnsText h]
  simp only [List.cons_append, List.nil_append]

theorem lexemes_addColumnText {c : Column} (ht : isWord table = true)
    (h : isWord c.name.raw.toList = true) : lexemes (addColumnText table c) =
      [keyword "ALTER", keyword "TABLE", .word table, keyword "ADD", keyword "COLUMN"] ++
        (columnDef c).lexemes := by
  have halter : lexemes "ALTER TABLE ".toList = [keyword "ALTER", keyword "TABLE"] :=
    rfl
  have hadd : lexemes " ADD COLUMN ".toList = [keyword "ADD", keyword "COLUMN"] :=
    rfl
  have hdecl := lexemes_declaration h (y := []) rfl
  rw [List.append_nil] at hdecl
  change lexemes ("ALTER TABLE ".toList ++ (table ++ (" ADD COLUMN ".toList ++ declaration c))) = _
  rw [lexemes_append_of_endsApart (by decide), halter,
    lexemes_word_between ht (y := " ADD COLUMN ".toList) (by decide), hadd, hdecl, lexemes_nil]
  simp only [List.cons_append, List.nil_append, List.append_nil]

/-- The lexemes of names with commas between them. -/
theorem lexemes_names (h : WordColumns cfg) {y : List Char} (hy : startsApart y = true) :
    lexemes ([','].intercalate (columnNames cfg) ++ y) =
      commaList ((columnNames cfg).map fun c => [.word c]) ++ lexemes y := by
  refine lexemes_intercalate _ (fun x hx => ?_) hy
  obtain ⟨c, hc, rfl⟩ := List.mem_map.1 hx
  exact ⟨quote_not_mem_of_isWord (h c hc), lexemes_word (h c hc)⟩

theorem lexemes_comma (y : List Char) : lexemes (',' :: y) = .sign ',' :: lexemes y := by
  rw [lexemes_cons]
  rfl

theorem lexemes_selectedText (h : WordColumns cfg) {y : List Char} (hy : startsApart y = true) :
    lexemes (selectedText cfg ++ y) =
      commaList ((keyColumn :: columnNames cfg).map fun c => [.word c]) ++ lexemes y := by
  rw [selectedText]
  split
  · next hnil =>
      rw [lexemes_word_append isWord_key hy, columnNames, hnil]
      rfl
  · next hne =>
      rw [List.append_assoc, List.cons_append, lexemes_word_append isWord_key rfl, lexemes_comma,
        lexemes_names h hy]
      cases hcols : columnNames cfg with
      | nil => exact absurd (List.map_eq_nil_iff.1 hcols) hne
      | cons c cols => simp [commaList]

/-- What is selected, and from where. -/
theorem lexemes_selectedText_from (ht : isWord table = true) (h : WordColumns cfg) {y : List Char}
    (hy : y ≠ [] ∧ startsApart y = true ∧ endsApart y = true) (z : List Char) :
    lexemes ("SELECT ".toList ++ (selectedText cfg ++ (" FROM ".toList ++ (table ++ (y ++ z))))) =
      keyword "SELECT" :: commaList ((keyColumn :: columnNames cfg).map fun c => [.word c]) ++
        keyword "FROM" :: .word table :: (lexemes y ++ lexemes z) := by
  have hselect : lexemes "SELECT ".toList = [keyword "SELECT"] := rfl
  have hfrom : lexemes " FROM ".toList = [keyword "FROM"] := rfl
  have hspace : " FROM ".toList = ' ' :: "FROM ".toList := rfl
  have hapart : ∀ w, startsApart (" FROM ".toList ++ w) = true := by
    intro w
    rw [hspace]
    rfl
  rw [lexemes_append_of_endsApart (by decide), hselect, lexemes_selectedText h (hapart _),
    lexemes_append_of_endsApart (by decide), hfrom, lexemes_word_between ht hy]
  simp only [List.cons_append, List.nil_append]

theorem lexemes_getRowText (ht : isWord table = true) (h : WordColumns cfg) :
    lexemes (getRowText table cfg) = keyword "SELECT" ::
      commaList ((keyColumn :: columnNames cfg).map fun c => [.word c]) ++
        keyword "FROM" :: .word table :: (Condition.equals keyColumn "1".toList).lexemes := by
  have hwhere : lexemes " WHERE ".toList = [keyword "WHERE"] := rfl
  have hbound : lexemes (keyColumn ++ " = ?1".toList) =
      [.word keyColumn, .sign '=', .variable "1".toList] := rfl
  change lexemes ("SELECT ".toList ++ (selectedText cfg ++ (" FROM ".toList ++ (table ++
    (" WHERE ".toList ++ (keyColumn ++ " = ?1".toList)))))) = _
  rw [lexemes_selectedText_from ht h (by decide), hwhere, hbound]
  simp only [Condition.lexemes, List.cons_append, List.nil_append]

theorem lexemes_listRowsText (ht : isWord table = true) (h : WordColumns cfg) :
    lexemes (listRowsText table cfg) = keyword "SELECT" ::
      commaList ((keyColumn :: columnNames cfg).map fun c => [.word c]) ++
        keyword "FROM" :: .word table ::
          (Sql.Window.mk keyColumn "1".toList "2".toList).lexemes := by
  have horder : lexemes " ORDER BY ".toList = [keyword "ORDER", keyword "BY"] := rfl
  have hlimit : lexemes (keyColumn ++ " LIMIT ?1 OFFSET ?2".toList) =
      [.word keyColumn, keyword "LIMIT", .variable "1".toList, keyword "OFFSET",
        .variable "2".toList] :=
    rfl
  change lexemes ("SELECT ".toList ++ (selectedText cfg ++ (" FROM ".toList ++ (table ++
    (" ORDER BY ".toList ++ (keyColumn ++ " LIMIT ?1 OFFSET ?2".toList)))))) = _
  rw [lexemes_selectedText_from ht h (by decide), horder, hlimit]
  simp only [Sql.Window.lexemes, List.cons_append, List.nil_append]

theorem lexemes_listKeysText (ht : isWord table = true) :
    lexemes (listKeysText table) = keyword "SELECT" :: .word keyColumn :: keyword "FROM" ::
      .word table :: ((Condition.like keyColumn "1".toList "'\\'".toList).lexemes ++
        (Sql.Window.mk keyColumn "2".toList "3".toList).lexemes) := by
  have hselect : lexemes "SELECT ".toList = [keyword "SELECT"] := rfl
  have hfrom : lexemes " FROM ".toList = [keyword "FROM"] := rfl
  have hwhere : lexemes " WHERE ".toList = [keyword "WHERE"] := rfl
  have hrest : lexemes (keyColumn ++ (" LIKE ?1 ESCAPE '\\' ORDER BY ".toList ++
      (keyColumn ++ " LIMIT ?2 OFFSET ?3".toList))) =
      [.word keyColumn, keyword "LIKE", .variable "1".toList, keyword "ESCAPE",
        .string "'\\'".toList, keyword "ORDER", keyword "BY", .word keyColumn, keyword "LIMIT",
        .variable "2".toList, keyword "OFFSET", .variable "3".toList] :=
    rfl
  change lexemes ("SELECT ".toList ++ (keyColumn ++ (" FROM ".toList ++ (table ++
    (" WHERE ".toList ++ (keyColumn ++ (" LIKE ?1 ESCAPE '\\' ORDER BY ".toList ++
      (keyColumn ++ " LIMIT ?2 OFFSET ?3".toList)))))))) = _
  rw [lexemes_append_of_endsApart (by decide), hselect,
    lexemes_word_between isWord_key (y := " FROM ".toList) (by decide), hfrom,
    lexemes_word_between ht (y := " WHERE ".toList) (by decide), hwhere, hrest]
  simp only [Condition.lexemes, Sql.Window.lexemes, List.cons_append, List.nil_append]

theorem lexemes_assignment {c : List Char} (h : isWord c = true) :
    lexemes (assignment c) = [.word c, .sign '=', keyword "excluded", .sign '.', .word c] := by
  have hequals : lexemes "=excluded.".toList = [.sign '=', keyword "excluded", .sign '.'] :=
    rfl
  change lexemes (c ++ ("=excluded.".toList ++ c)) = _
  rw [lexemes_word_between h (y := "=excluded.".toList) (by decide), hequals,
    lexemes_word h]
  simp only [List.cons_append, List.nil_append]

theorem lexemes_assignments (h : WordColumns cfg) :
    lexemes ([','].intercalate ((columnNames cfg).map assignment)) =
      commaList ((columnNames cfg).map fun c =>
        [.word c, .sign '=', keyword "excluded", .sign '.', .word c]) := by
  have hlist : lexemes ([','].intercalate ((columnNames cfg).map assignment) ++ []) =
      commaList (((columnNames cfg).map assignment).map lexemes) ++ lexemes [] := by
    refine lexemes_intercalate lexemes (fun x hx => ⟨?_, rfl⟩) rfl
    obtain ⟨z, hz, rfl⟩ := List.mem_map.1 hx
    obtain ⟨c, hc, rfl⟩ := List.mem_map.1 hz
    intro hquote
    have hc' := quote_not_mem_of_isWord (h c hc)
    rw [assignment, List.mem_append, List.mem_append] at hquote
    rcases hquote with hquote | hquote | hquote
    · exact hc' hquote
    · exact absurd hquote (by decide)
    · exact hc' hquote
  rw [List.append_nil, List.map_map] at hlist
  rw [hlist, lexemes_nil, List.append_nil]
  congr 1
  refine List.map_congr_left fun x hx => ?_
  obtain ⟨c, hc, rfl⟩ := List.mem_map.1 hx
  exact lexemes_assignment (h c hc)

theorem lexemes_placeholders (n : ℕ) {y : List Char} (hy : startsApart y = true) :
    lexemes ([','].intercalate (List.replicate n ['?']) ++ y) =
      commaList (List.replicate n [.variable []]) ++ lexemes y := by
  have hmark : lexemes ['?'] = [.variable []] := rfl
  rw [lexemes_intercalate (fun _ => [.variable []]) (fun x hx => ?_) hy, List.map_replicate]
  obtain rfl := List.eq_of_mem_replicate hx
  exact ⟨by decide, hmark⟩

theorem lexemes_putKeyText (ht : isWord table = true) :
    lexemes (putKeyText table) = keyword "INSERT" :: keyword "INTO" :: .word table ::
      (parens [.word keyColumn] ++ keyword "VALUES" :: parens [.variable []] ++
        keyword "ON" :: keyword "CONFLICT" :: parens [.word keyColumn] ++
          [keyword "DO", keyword "NOTHING"]) := by
  have hinsert : lexemes "INSERT INTO ".toList = [keyword "INSERT", keyword "INTO"] :=
    rfl
  have hopen : lexemes " (".toList = [.sign '('] := rfl
  have hrest : lexemes (keyColumn ++ (") VALUES (?) ON CONFLICT(".toList ++
      (keyColumn ++ ") DO NOTHING".toList))) =
      [.word keyColumn, .sign ')', keyword "VALUES", .sign '(', .variable [], .sign ')',
        keyword "ON", keyword "CONFLICT", .sign '(', .word keyColumn, .sign ')', keyword "DO",
        keyword "NOTHING"] :=
    rfl
  change lexemes ("INSERT INTO ".toList ++ (table ++ (" (".toList ++ (keyColumn ++
    (") VALUES (?) ON CONFLICT(".toList ++ (keyColumn ++ ") DO NOTHING".toList)))))) = _
  rw [lexemes_append_of_endsApart (by decide), hinsert,
    lexemes_word_between ht (y := " (".toList) (by decide), hopen, hrest]
  simp only [parens, List.cons_append, List.nil_append]

theorem lexemes_putColumnsText (ht : isWord table = true) (h : WordColumns cfg)
    (hne : columnNames cfg ≠ []) :
    lexemes (putColumnsText table (columnNames cfg)) =
      keyword "INSERT" :: keyword "INTO" :: .word table ::
        (parens (commaList ((keyColumn :: columnNames cfg).map fun c => [.word c])) ++
          keyword "VALUES" ::
            parens (commaList ((keyColumn :: columnNames cfg).map fun _ => [.variable []])) ++
          keyword "ON" :: keyword "CONFLICT" :: parens [.word keyColumn] ++
          keyword "DO" :: keyword "UPDATE" :: keyword "SET" ::
            commaList ((columnNames cfg).map fun c =>
              [.word c, .sign '=', keyword "excluded", .sign '.', .word c])) := by
  have hinsert : lexemes "INSERT INTO ".toList = [keyword "INSERT", keyword "INTO"] :=
    rfl
  have hopen : lexemes " (".toList = [.sign '('] := rfl
  have hvalues : lexemes ") VALUES (".toList = [.sign ')', keyword "VALUES", .sign '('] :=
    rfl
  have hconflict : lexemes ") ON CONFLICT(".toList =
      [.sign ')', keyword "ON", keyword "CONFLICT", .sign '('] :=
    rfl
  have hupdate : lexemes ") DO UPDATE SET ".toList =
      [.sign ')', keyword "DO", keyword "UPDATE", keyword "SET"] :=
    rfl
  have hvaluesApart : ") VALUES (".toList = ')' :: " VALUES (".toList := rfl
  have hconflictApart : ") ON CONFLICT(".toList = ')' :: " ON CONFLICT(".toList :=
    rfl
  change lexemes ("INSERT INTO ".toList ++ (table ++ (" (".toList ++ (keyColumn ++ ',' ::
    ([','].intercalate (columnNames cfg) ++ (") VALUES (".toList ++
      ([','].intercalate (List.replicate ((columnNames cfg).length + 1) ['?']) ++
        (") ON CONFLICT(".toList ++ (keyColumn ++ (") DO UPDATE SET ".toList ++
          [','].intercalate ((columnNames cfg).map assignment))))))))))) = _
  rw [lexemes_append_of_endsApart (by decide), hinsert,
    lexemes_word_between ht (y := " (".toList) (by decide), hopen,
    lexemes_word_append isWord_key rfl, lexemes_comma,
    lexemes_names h (by rw [hvaluesApart]; rfl), lexemes_append_of_endsApart (by decide), hvalues,
    lexemes_placeholders _ (by rw [hconflictApart]; rfl), lexemes_append_of_endsApart (by decide),
    hconflict, lexemes_word_between isWord_key (y := ") DO UPDATE SET ".toList) (by decide),
    hupdate, lexemes_assignments h]
  cases hcols : columnNames cfg with
  | nil => exact absurd hcols hne
  | cons c cols => simp [parens, commaList, List.replicate_succ, List.map_const']

end Lexemes

/-! ## Which configurations are usable -/

theorem wordColumns_of_bareName {cfg : TableConfig} (h : ∀ c ∈ cfg.columns, BareName c.name) :
    WordColumns cfg := fun c hc => ((isColumn_iff c.name).2 (h c hc)).1.1

theorem isColumn_of_mem_columnNames {cfg : TableConfig} (h : ∀ c ∈ cfg.columns, BareName c.name)
    {x : List Char} (hx : x ∈ keyColumn :: columnNames cfg) : IsColumn x := by
  rcases List.mem_cons.1 hx with rfl | hx
  · exact isColumn_key
  · obtain ⟨c, hc, rfl⟩ := List.mem_map.1 hx
    exact (isColumn_iff c.name).2 (h c hc)

theorem valid_columnDef {c : Column} (h : BareName c.name) : (columnDef c).Valid :=
  ⟨((isColumn_iff c.name).2 h).1, isName_sqliteType c.columnType⟩

theorem valid_of_mem_columnDefs {cfg : TableConfig} (h : ∀ c ∈ cfg.columns, BareName c.name)
    {d : ColumnDef} (hd : d ∈ columnDefs cfg) : d.Valid := by
  rcases List.mem_cons.1 hd with rfl | hd
  · exact ⟨isColumn_key.1, isName_sqliteType .text⟩
  · obtain ⟨c, hc, rfl⟩ := List.mem_map.1 hd
    exact valid_columnDef (h c hc)

/-- No two columns of an accepted table have a name that sqlite takes for the same. -/
theorem nodup_columnDefs {cfg : TableConfig} (h : validateTable cfg = .ok ()) :
    ((columnDefs cfg).map fun d => d.name.map Char.toLower).Nodup := by
  have hcolumns : validateColumns [] cfg.columns = .ok () := by
    unfold validateTable at h
    split_ifs at h
    exact h
  obtain ⟨hnodup, hkey⟩ := columns_of_validateColumns hcolumns
  have hlower : (columnDefs cfg).map (fun d => d.name.map Char.toLower) =
      (tableKeyColumn :: cfg.columns.map fun c => c.name.raw).map String.toList := by
    have hkeyLower : keyColumn.map Char.toLower = tableKeyColumn.toList := by
      decide +kernel
    rw [columnDefs, List.map_cons, List.map_cons, List.map_map, List.map_map]
    refine congrArg₂ _ hkeyLower (List.map_congr_left fun c _ => ?_)
    exact map_toLower_ident c.name
  rw [hlower]
  refine List.Nodup.map (fun _ _ => String.toList_inj.1) ?_
  refine List.nodup_cons.2 ⟨fun hmem => ?_, hnodup⟩
  obtain ⟨c, hc, hname⟩ := List.mem_map.1 hmem
  exact (hkey c hc).1 hname

/-- The statements on an accepted table are read as they are meant exactly when every column is a
bare name: the names that start with a digit and the keywords pass the validation all the same. -/
theorem usable_iff {name : NodeName} {cfg : TableConfig}
    (hname : validateTableName name.raw = .ok ()) (hcfg : validateTable cfg = .ok ()) :
    Usable name cfg ↔ ∀ c ∈ cfg.columns, BareName c.name := by
  have htable := isName_tableOf hname
  constructor
  · intro h c hc
    refine (isColumn_iff c.name).1 (h.getRow.2.1 _ (List.mem_cons_of_mem _ ?_))
    exact List.mem_map.2 ⟨c, hc, rfl⟩
  · intro h
    have hwords := wordColumns_of_bareName h
    have hselected : ∀ x ∈ keyColumn :: columnNames cfg, IsColumn x :=
      fun x hx => isColumn_of_mem_columnNames h hx
    have hequals : ∀ c ∈ some (Condition.equals keyColumn "1".toList), IsColumn c.column := by
      rintro c ⟨⟩
      exact isColumn_key
    have hlike : ∀ c ∈ some (Condition.like keyColumn "1".toList "'\\'".toList),
        IsColumn c.column := by
      rintro c ⟨⟩
      exact isColumn_key
    have hwindow : ∀ n m, ∀ w ∈ some (Sql.Window.mk keyColumn n m), IsColumn w.column := by
      rintro n m w ⟨⟩
      exact isColumn_key
    have hdefs : ∀ d ∈ columnDefs cfg, d.Valid := fun d hd => valid_of_mem_columnDefs h hd
    constructor
    · exact ⟨htable, List.cons_ne_nil _ _, hdefs, nodup_columnDefs hcfg,
        lexemes_createText htable.1 hwords⟩
    · exact ⟨htable, List.cons_ne_nil _ _, hdefs, nodup_columnDefs hcfg,
        lexemes_ensureText htable.1 hwords⟩
    · exact fun c hc => ⟨htable, valid_columnDef (h c hc),
        lexemes_addColumnText htable.1 (hwords c hc)⟩
    · refine ⟨List.cons_ne_nil _ _, hselected, htable, hequals, fun w hw => (by cases hw), ?_⟩
      rw [lexemes_getRowText htable.1 hwords, Option.elim_some, Option.elim_none, List.append_nil]
    · refine ⟨List.cons_ne_nil _ _, hselected, htable, fun c hc => (by cases hc), hwindow _ _, ?_⟩
      rw [lexemes_listRowsText htable.1 hwords, Option.elim_some, Option.elim_none,
        List.nil_append]
    · refine ⟨List.cons_ne_nil _ _, fun x hx => ?_, htable, hlike, hwindow _ _, ?_⟩
      · obtain rfl := List.mem_singleton.1 hx
        exact isColumn_key
      · rw [lexemes_listKeysText htable.1, Option.elim_some, Option.elim_some]
        rfl
    · refine ⟨htable, List.cons_ne_nil _ _, fun c hc => (hselected c hc).1, isColumn_key,
        fun c hc => (hselected c (List.mem_cons_of_mem _ hc)).1, ?_⟩
      rw [putRowText]
      split
      · next hnil =>
          rw [lexemes_putKeyText htable.1, hnil]
          rfl
      · next hne =>
          rw [lexemes_putColumnsText htable.1 hwords hne]
          simp only [List.append_assoc, List.cons_append]

/-- The visits of clients can be kept in a table, and their order cannot be a column of it. -/
theorem usable_visits :
    Usable ⟨"clients", by decide⟩
        ⟨[⟨⟨"email", by decide⟩, .text⟩, ⟨⟨"visits", by decide⟩, .integer⟩]⟩ ∧
      ¬Usable ⟨"clients", by decide⟩ ⟨[⟨⟨"order", by decide⟩, .integer⟩]⟩ := by
  constructor
  · refine (usable_iff (by decide) (by decide)).2 fun c hc => ?_
    simp only [List.mem_cons, List.not_mem_nil, or_false] at hc
    rcases hc with rfl | rfl
    · exact ⟨fun d hd => (by cases hd; rfl), by decide, by decide⟩
    · exact ⟨fun d hd => (by cases hd; rfl), by decide, by decide⟩
  · rw [usable_iff (by decide) (by decide)]
    intro h
    exact absurd (h _ (.head _)).2.1 (by decide)

end TableStatements

end Wheel

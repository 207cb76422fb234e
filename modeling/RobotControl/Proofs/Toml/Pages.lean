import RobotControl.Proofs.Toml.Lines

/-!
# Pages of fields

A page is a text of fields, each a bare name and the text of a scalar, and after them of tables of
such fields, each under its header.  Where no name is given twice in one place, the page is read as
the document of its fields and tables (`Page.Readable.parse_text`).
-/
set_option autoImplicit false

namespace RobotControl.Toml

/-! ### Building a document -/

section Entries

variable {es : Entries} {name : String} (fresh : name ∉ es.map (·.1))
include fresh

theorem get?_append_of_fresh (more : Entries) :
    Entries.get? (es ++ more) name = Entries.get? more name := by
  have absent : List.lookup name es = none := by
    rw [List.lookup_eq_none_iff]
    intro e member
    simpa using fun same : name = e.1 => fresh (same ▸ List.mem_map_of_mem member)
  rw [Entries.get?, List.lookup_append, absent, Option.none_or]
  rfl

theorem get?_of_fresh : es.get? name = none := by
  have absent := get?_append_of_fresh fresh []
  rwa [List.append_nil] at absent

theorem put_append (v w : Tree) :
    Entries.put name w (es ++ [(name, v)]) = es ++ [(name, w)] := by
  induction es with
  | nil => exact if_pos rfl
  | cons e es ih =>
      rw [List.map_cons, List.mem_cons, not_or] at fresh
      show (if e.1 = name then _ else _) = _
      rw [if_neg (Ne.symm fresh.1)]
      exact congrArg (e :: ·) (ih fresh.2)

theorem assign_fresh (v : Tree) :
    assign [name] v .opened es = some (.opened, es ++ [(name, v)]) := by
  show give true name v .opened es = _
  unfold give
  rw [if_neg (by decide), get?_of_fresh fresh]
  rfl

theorem openTable_fresh :
    openTable name .opened es = some (.opened, es ++ [(name, .table .opened [])]) := by
  unfold openTable
  rw [get?_of_fresh fresh]

end Entries

theorem fresh_of_nodup {front es : Entries} {e : String × Tree}
    (distinct : ((front ++ e :: es).map (·.1)).Nodup) : e.1 ∉ front.map (·.1) := by
  rw [List.map_append, List.nodup_append] at distinct
  exact fun member => distinct.2.2 e.1 member e.1 List.mem_cons_self rfl

def pairs (es : Entries) : List Statement := es.map fun e => .pair [e.1] e.2

theorem foldlM_pairs {place : Entries → Draft}
    (step : ∀ es name v, name ∉ es.map (·.1) →
      Draft.add (place es) (.pair [name] v) = some (place (es ++ [(name, v)])))
    {es : Entries} : ∀ front : Entries, ((front ++ es).map (·.1)).Nodup →
      (pairs es).foldlM Draft.add (place front) = some (place (front ++ es)) := by
  induction es with
  | nil =>
      intro front _
      rw [List.append_nil]
      rfl
  | cons e es ih =>
      intro front distinct
      have next : front ++ e :: es = front ++ [e] ++ es := List.append_cons front e es
      show (Draft.add (place front) (.pair [e.1] e.2)).bind _ = _
      rw [step front e.1 e.2 (fresh_of_nodup distinct), Option.bind_some, next]
      exact ih _ (next ▸ distinct)

theorem add_pair (es : Entries) (name : String) (v : Tree) (fresh : name ∉ es.map (·.1)) :
    Draft.add ⟨es, []⟩ (.pair [name] v) = some ⟨es ++ [(name, v)], []⟩ := by
  show (assign [name] v .opened es).bind _ = _
  rw [assign_fresh fresh]
  rfl

theorem add_header {es : Entries} {name : String} (fresh : name ∉ es.map (·.1))
    (current : List String) :
    Draft.add ⟨es, current⟩ (.header [name]) =
      some ⟨es ++ [(name, .table .opened [])], [name]⟩ := by
  show (openTable name .opened es).bind _ = _
  rw [openTable_fresh fresh]
  rfl

theorem add_pair_within {front : Entries} {table : String} (apart : table ∉ front.map (·.1))
    (es : Entries) (name : String) (v : Tree) (fresh : name ∉ es.map (·.1)) :
    Draft.add ⟨front ++ [(table, .table .opened es)], [table]⟩ (.pair [name] v) =
      some ⟨front ++ [(table, .table .opened (es ++ [(name, v)]))], [table]⟩ := by
  have found : Entries.get? (front ++ [(table, .table .opened es)]) table =
      some (.table .opened es) := by
    rw [get?_append_of_fresh apart]
    exact List.lookup_cons_self
  have changed : alter false (assign [name] v) [table] .opened
      (front ++ [(table, .table .opened es)]) =
      some (.opened, front ++ [(table, .table .opened (es ++ [(name, v)]))]) := by
    rw [alter, found]
    dsimp only
    rw [if_neg (by decide), alter, assign_fresh fresh]
    exact congrArg (fun es => some (Shape.opened, es)) (put_append apart _ _)
  show (alter false (assign [name] v) [table] .opened _).bind _ = _
  rw [changed]
  rfl

/-! ### Fields, tables and pages -/

structure Field where
  name : String
  literal : String
  value : Tree

namespace Field

structure Readable (f : Field) : Prop where
  bare : IsBare f.name.toList
  writes : Writes f.literal.toList f.value

def entry (f : Field) : String × Tree := (f.name, f.value)

def line (f : Field) : List Char × Statement :=
  (f.name.toList ++ ' ' :: '=' :: ' ' :: f.literal.toList, .pair [f.name] f.value)

def text (f : Field) : String := f.name ++ " = " ++ f.literal ++ "\n"

theorem Readable.reads {f : Field} (readable : f.Readable) : Reads f.line.1 f.line.2 := by
  have reads := reads_pair readable.bare readable.writes
  rwa [String.ofList_toList] at reads

end Field

structure Table where
  name : String
  fields : List Field

namespace Table

structure Readable (t : Table) : Prop where
  bare : IsBare t.name.toList
  fields : ∀ f ∈ t.fields, f.Readable
  distinct : ((t.fields.map Field.entry).map (·.1)).Nodup

def entry (t : Table) : String × Tree := (t.name, .table .opened (t.fields.map Field.entry))

def lines (t : Table) : List (List Char × Statement) :=
  ('\n' :: '[' :: (t.name.toList ++ [']']), .header [t.name]) :: t.fields.map Field.line

def text (t : Table) : String := "\n[" ++ t.name ++ "]\n" ++ String.join (t.fields.map Field.text)

theorem Readable.reads {t : Table} (readable : t.Readable) : ∀ l ∈ t.lines, Reads l.1 l.2 := by
  have header : Reads ('\n' :: '[' :: (t.name.toList ++ [']'])) (.header [t.name]) := by
    have reads := (reads_header readable.bare).blank
    rwa [String.ofList_toList] at reads
  intro l member
  rcases List.mem_cons.mp member with rfl | member
  · exact header
  · obtain ⟨f, field, rfl⟩ := List.mem_map.mp member
    exact (readable.fields f field).reads

theorem Readable.foldlM_lines {t : Table} (readable : t.Readable) {es : Entries}
    (fresh : t.name ∉ es.map (·.1)) (current : List String) :
    (t.lines.map (·.2)).foldlM Draft.add ⟨es, current⟩ = some ⟨es ++ [t.entry], [t.name]⟩ := by
  have statements : t.lines.map (·.2) = .header [t.name] :: pairs (t.fields.map Field.entry) := by
    simp [lines, pairs, Field.line, Field.entry, Function.comp_def]
  rw [statements]
  show (Draft.add ⟨es, current⟩ (.header [t.name])).bind _ = _
  rw [add_header fresh, Option.bind_some]
  exact foldlM_pairs (add_pair_within fresh) [] readable.distinct

end Table

structure Page where
  fields : List Field
  tables : List Table

namespace Page

def entries (p : Page) : Entries := p.fields.map Field.entry ++ p.tables.map Table.entry

def lines (p : Page) : List (List Char × Statement) :=
  p.fields.map Field.line ++ p.tables.flatMap Table.lines

def text (p : Page) : String :=
  String.join (p.fields.map Field.text) ++ String.join (p.tables.map Table.text)

structure Readable (p : Page) : Prop where
  fields : ∀ f ∈ p.fields, f.Readable
  tables : ∀ t ∈ p.tables, t.Readable
  distinct : (p.entries.map (·.1)).Nodup

theorem Readable.reads {p : Page} (readable : p.Readable) : ∀ l ∈ p.lines, Reads l.1 l.2 := by
  intro l member
  rcases List.mem_append.mp member with member | member
  · obtain ⟨f, field, rfl⟩ := List.mem_map.mp member
    exact (readable.fields f field).reads
  · obtain ⟨t, table, member⟩ := List.mem_flatMap.mp member
    exact (readable.tables t table).reads l member

theorem toList_text (p : Page) : p.text.toList = written p.lines := by
  have field : ∀ f : Field, f.text.toList = f.line.1 ++ ['\n'] := by
    intro f
    simp [Field.text, Field.line]
  have fields : ∀ fs : List Field,
      (String.join (fs.map Field.text)).toList = written (fs.map Field.line) := by
    intro fs
    simp [written, List.flatMap_map, field]
  have table : ∀ t : Table, t.text.toList = written t.lines := by
    intro t
    simp [Table.text, Table.lines, fields, written]
  simp [text, lines, fields, table, written, List.flatMap_map, List.flatMap_assoc]

/-- Every header is added at the top again, whichever table stood before it. -/
theorem foldlM_tables {tables : List Table} (readable : ∀ t ∈ tables, t.Readable) :
    ∀ {es : Entries} {current : List String}, ((es ++ tables.map Table.entry).map (·.1)).Nodup →
      (((tables.flatMap Table.lines).map (·.2)).foldlM Draft.add ⟨es, current⟩).map (·.entries) =
        some (es ++ tables.map Table.entry) := by
  induction tables with
  | nil =>
      intro es current _
      simp
  | cons t tables ih =>
      intro es current distinct
      have opened := (readable t List.mem_cons_self).foldlM_lines (fresh_of_nodup distinct) current
      have next : es ++ t.entry :: tables.map Table.entry =
          es ++ [t.entry] ++ tables.map Table.entry := List.append_cons _ _ _
      rw [List.map_cons, next] at distinct ⊢
      rw [List.flatMap_cons, List.map_append, List.foldlM_append, opened]
      exact ih (fun u member => readable u (List.mem_cons_of_mem _ member)) distinct

theorem Readable.parse_text {p : Page} (readable : p.Readable) : parse p.text = some p.entries := by
  have statements : p.lines.map (·.2) =
      pairs (p.fields.map Field.entry) ++ (p.tables.flatMap Table.lines).map (·.2) := by
    simp [lines, pairs, Field.line, Field.entry, Function.comp_def]
  have distinct := readable.distinct
  have top : ((p.fields.map Field.entry).map (·.1)).Nodup := by
    rw [entries, List.map_append, List.nodup_append] at distinct
    exact distinct.1
  have given : (pairs (p.fields.map Field.entry)).foldlM Draft.add ⟨[], []⟩ =
      some ⟨p.fields.map Field.entry, []⟩ := foldlM_pairs add_pair [] top
  rw [parse_written readable.reads p.toList_text, build, statements, List.foldlM_append]
  show Option.map _ (((pairs (p.fields.map Field.entry)).foldlM Draft.add ⟨[], []⟩).bind _) = _
  rw [given]
  exact foldlM_tables readable.tables distinct

end Page

end RobotControl.Toml

import Mathlib.Data.List.Forall2
import MiniSql.Parser
import MiniSql.Schema

/-!
# Writing a schema file and reading it back

`storage_create` takes every column definition apart with `parse_schema_definition` and writes
name and type as a line `name,type`. `load_schema` takes the lines apart with the same
function. Both together bring the declared columns back exactly for names that neither of the
two passes cuts: at most 63 bytes, no comma, blank, tab or newline inside, no blank at an end
and no `#` at the start.

## Main definitions

* `LoadableName` — the names a schema can have after it was read.
* `CleanName` — the names that come back unchanged.
* `Declares` — a declared column and its definition in the schema.

## Main results

* `loadSchemaLoop_schemaLine` — reading a file of lines.
* `parseSchema_schemaLine_iff` — when the declared columns come back.
-/

namespace MiniSql
open CText

/-- A line of a schema file. -/
def schemaLine (d : CStr × CStr) : CStr := d.1 ++ ',' :: d.2 ++ ['\n']

/-- The column of the schema is the declared one. -/
def Declares (d : CStr × CStr) (col : ColDef) : Prop :=
  d.1 = col.name ∧ parseColumnType d.2 = some col.type

/-- What holds of the name of every column that was read from a schema file. -/
structure LoadableName (name : CStr) : Prop where
  ne_nil : name ≠ []
  length_le : name.length ≤ 63
  trimmed : Trimmed name
  not_comment : name.head? ≠ some '#'
  no_comma : ',' ∉ name
  no_newline : '\n' ∉ name
  nulFree : NulFree name

instance (name : CStr) : Decidable (LoadableName name) :=
  decidable_of_iff (name ≠ [] ∧ name.length ≤ 63 ∧ Trimmed name ∧ name.head? ≠ some '#' ∧
    ',' ∉ name ∧ '\n' ∉ name ∧ NulFree name)
    ⟨fun ⟨h₁, h₂, h₃, h₄, h₅, h₆, h₇⟩ => ⟨h₁, h₂, h₃, h₄, h₅, h₆, h₇⟩,
      fun ⟨h₁, h₂, h₃, h₄, h₅, h₆, h₇⟩ => ⟨h₁, h₂, h₃, h₄, h₅, h₆, h₇⟩⟩

/-- A name that `parse_schema_definition` takes from a definition as it is. -/
def CleanName (name : CStr) : Prop := LoadableName name ∧ ' ' ∉ name ∧ '\t' ∉ name

instance (name : CStr) : Decidable (CleanName name) := inferInstanceAs (Decidable (_ ∧ _))

/-- A name and a type that make up one line. -/
structure LineOk (d : CStr × CStr) : Prop where
  name : LoadableName d.1
  type_ne_nil : d.2 ≠ []
  type_length : d.2.length ≤ 63
  type_trimmed : Trimmed d.2
  type_no_newline : '\n' ∉ d.2
  type_nulFree : NulFree d.2

/-! ## Cutting a definition -/

theorem cutAt_spec {p : Char → Bool} {s a b : CStr} (h : cutAt p s = some (a, b)) :
    ∃ c, p c = true ∧ s = a ++ c :: b ∧ ∀ x ∈ a, p x = false := by
  unfold cutAt at h
  have hsplit := List.takeWhile_append_dropWhile (p := fun c => !p c) (l := s)
  cases hdrop : s.dropWhile (fun c => !p c) with
  | nil =>
    rw [hdrop] at h
    exact absurd h (by simp)
  | cons c rest =>
    rw [hdrop] at h hsplit
    obtain ⟨rfl, rfl⟩ := Prod.mk.inj (Option.some.inj h)
    have hne : s.dropWhile (fun c => !p c) ≠ [] := by simp [hdrop]
    have hc := List.head_dropWhile_not (fun c => !p c) hne
    simp only [hdrop, List.head_cons, Bool.not_eq_false'] at hc
    exact ⟨c, hc, hsplit.symm, fun x hx => by simpa using List.mem_takeWhile_imp hx⟩

theorem cutAt_append {p : Char → Bool} {a b : CStr} {c : Char} (ha : ∀ x ∈ a, p x = false)
    (hc : p c = true) : cutAt p (a ++ c :: b) = some (a, b) := by
  have hall : ∀ x ∈ a, (!p x) = true := fun x hx => by simp [ha x hx]
  have hdrop : (a ++ c :: b).dropWhile (fun c => !p c) = c :: b := by
    rw [List.dropWhile_append_of_pos hall]
    simp [hc]
  have htake : (a ++ c :: b).takeWhile (fun c => !p c) = a := by
    rw [List.takeWhile_append_of_pos hall]
    simp [hc]
  unfold cutAt
  rw [hdrop, htake]

theorem cutAt_eq_none_iff {p : Char → Bool} {s : CStr} :
    cutAt p s = none ↔ ∀ x ∈ s, p x = false := by
  constructor
  · intro h x hx
    by_contra hp
    unfold cutAt at h
    split at h
    · rename_i hdrop
      have hall := List.dropWhile_eq_nil_iff.mp hdrop x hx
      simp_all
    · exact absurd h (by simp)
  · intro h
    have hdrop : s.dropWhile (fun c => !p c) = [] := by
      simpa [List.dropWhile_eq_nil_iff] using h
    unfold cutAt
    rw [hdrop]

/-- What `parse_schema_definition` makes of a text: name and type are the trimmed pieces around
a separator. -/
theorem parseSchemaDefinition_spec {text name type : CStr}
    (h : parseSchemaDefinition text = some (name, type)) (hne : name ≠ []) :
    ∃ a c b, trimSpace (text.take (storageLineMax - 1)) = a ++ c :: b ∧
      name = trimSpace a ∧ type = trimSpace b ∧ name.length ≤ 63 ∧ type ≠ [] ∧ type.length ≤ 63 ∧
      (a ++ c :: b).head? ≠ some '#' ∧ ',' ∉ a ∧ (',' ∉ a ++ c :: b → ' ' ∉ a ∧ '\t' ∉ a) := by
  unfold parseSchemaDefinition at h
  dsimp only at h
  set s := trimSpace (text.take (storageLineMax - 1)) with hs
  split_ifs at h with hblank
  · obtain ⟨rfl, -⟩ := Prod.mk.inj (Option.some.inj h)
    exact absurd rfl hne
  obtain ⟨hnil, hcomment⟩ := not_or.mp hblank
  have hcut : ∀ {a b}, (cutAt (· == ',') s).or (cutAt (fun c => c == ' ' || c == '\t') s) =
      some (a, b) → ∃ c, s = a ++ c :: b ∧ ',' ∉ a ∧ (',' ∉ s → ' ' ∉ a ∧ '\t' ∉ a) := by
    intro a b hor
    cases hcomma : cutAt (· == ',') s with
    | some ab =>
      obtain rfl : ab = (a, b) := by simpa [hcomma] using hor
      obtain ⟨c, hc, hsplit, ha⟩ := cutAt_spec hcomma
      have hmem : ',' ∈ s := by
        rw [hsplit, ← beq_iff_eq.mp hc]
        simp
      exact ⟨c, hsplit, fun hin => by simpa using ha _ hin, fun hout => absurd hmem hout⟩
    | none =>
      rw [hcomma, Option.none_or] at hor
      obtain ⟨c, -, hsplit, ha⟩ := cutAt_spec hor
      refine ⟨c, hsplit, fun hin => ?_, fun _ => ⟨fun hin => ?_, fun hin => ?_⟩⟩
      · have hfalse := cutAt_eq_none_iff.mp hcomma ',' (by simp [hsplit, hin])
        simp at hfalse
      · simpa using ha _ hin
      · simpa using ha _ hin
  split at h
  · exact absurd h (by simp)
  · rename_i a b hor
    split_ifs at h with hempty hlong
    obtain ⟨rfl, rfl⟩ := Prod.mk.inj (Option.some.inj h)
    obtain ⟨c, hsplit, hcomma, hblanks⟩ := hcut hor
    obtain ⟨hname, htype⟩ := not_or.mp hempty
    obtain ⟨hnlen, htlen⟩ := not_or.mp hlong
    rw [columnNameMax] at hnlen
    exact ⟨a, c, b, hsplit, rfl, rfl, by omega, htype, by omega, hsplit ▸ hcomment, hcomma,
      hsplit ▸ hblanks⟩

/-- Only blank lines and comments have no name. -/
theorem parseSchemaDefinition_name_ne_nil {text : CStr} {d : CStr × CStr}
    (h : parseSchemaDefinition text = some d)
    (hne : trimSpace (text.take (storageLineMax - 1)) ≠ [])
    (hcomment : (trimSpace (text.take (storageLineMax - 1))).head? ≠ some '#') : d.1 ≠ [] := by
  unfold parseSchemaDefinition at h
  dsimp only at h
  rw [if_neg (not_or.mpr ⟨hne, hcomment⟩)] at h
  split at h
  · exact absurd h (by simp)
  · split_ifs at h with hempty
    rw [← Option.some.inj h]
    exact (not_or.mp hempty).1

/-- A definition without a newline inside makes up a line. -/
theorem lineOk_of_parse {text : CStr} {d : CStr × CStr} (h : parseSchemaDefinition text = some d)
    (hne : d.1 ≠ []) (hnewline : '\n' ∉ trimSpace (text.take (storageLineMax - 1)))
    (hnul : NulFree text) : LineOk d := by
  obtain ⟨name, type⟩ := d
  obtain ⟨a, c, b, hsplit, hname, htype, hnlen, htne, htlen, hhead, hcomma, -⟩ :=
    parseSchemaDefinition_spec h hne
  have htrim := trimmed_trimSpace (text.take (storageLineMax - 1))
  rw [hsplit] at hnewline htrim
  have hmem : ∀ x ∈ a ++ c :: b, x ∈ text := fun x hx =>
    List.mem_of_mem_take (mem_of_mem_trimSpace (hsplit ▸ hx))
  have hin : ∀ x ∈ name, x ∈ a ++ c :: b := by
    rintro x hx
    rw [hname] at hx
    simp [mem_of_mem_trimSpace hx]
  have hin' : ∀ x ∈ type, x ∈ a ++ c :: b := by
    rintro x hx
    rw [htype] at hx
    simp [mem_of_mem_trimSpace hx]
  have hane : a ≠ [] := by
    rintro rfl
    exact hne (by rw [hname]; rfl)
  obtain ⟨x, hx⟩ : ∃ x, a.head? = some x := ⟨a.head hane, List.head?_eq_some_head hane⟩
  have hx' : (a ++ c :: b).head? = some x := by rw [List.head?_append, hx]; rfl
  exact
    { name :=
        { ne_nil := hne
          length_le := hnlen
          trimmed := hname ▸ trimmed_trimSpace a
          not_comment := by
            rw [hname, head?_trimSpace hx (htrim.1 x hx')]
            rwa [hx'] at hhead
          no_comma := fun hc => hcomma (mem_of_mem_trimSpace (hname ▸ hc))
          no_newline := fun hc => hnewline (hin _ hc)
          nulFree := fun hc => hnul (hmem _ (hin _ hc)) }
      type_ne_nil := htne
      type_length := htlen
      type_trimmed := htype ▸ trimmed_trimSpace b
      type_no_newline := fun hc => hnewline (hin' _ hc)
      type_nulFree := fun hc => hnul (hmem _ (hin' _ hc)) }

/-! ## Reading the lines -/

/-- A line has its newline at the end, if it has one. -/
theorem newline_of_mem_fgetsLoop {s acc line : CStr} (hacc : '\n' ∉ acc)
    (h : line ∈ fgetsLoop s acc) : ∃ body, '\n' ∉ body ∧ line <+: body ++ ['\n'] := by
  induction s generalizing acc with
  | nil =>
    rw [fgetsLoop] at h
    split_ifs at h
    · exact absurd h (by simp)
    · rw [List.mem_singleton] at h
      exact ⟨acc, hacc, h ▸ List.prefix_append _ _⟩
  | cons c s ih =>
    rw [fgetsLoop] at h
    by_cases hc : c = '\n'
    · rw [if_pos (.inl hc), List.mem_cons] at h
      rcases h with rfl | h
      · exact ⟨acc, hacc, hc ▸ List.prefix_refl _⟩
      · exact ih (by simp) h
    · have hacc' : '\n' ∉ acc ++ [c] := by
        simpa [hacc] using Ne.symm hc
      split_ifs at h
      · rw [List.mem_cons] at h
        rcases h with rfl | h
        · exact ⟨_, hacc', List.prefix_append _ _⟩
        · exact ih (by simp) h
      · exact ih hacc' h

theorem newline_not_mem_trimSpace {body pre : CStr} (hbody : '\n' ∉ body)
    (hpre : pre <+: body ++ ['\n']) : '\n' ∉ trimSpace pre := by
  intro h
  rcases List.prefix_concat_iff.mp hpre with rfl | hpre
  · rw [trimSpace_append_space (by decide)] at h
    exact hbody (mem_of_mem_trimSpace h)
  · exact hbody (hpre.sublist.mem (mem_of_mem_trimSpace h))

/-- Every column of a schema that was read has a loadable name. -/
theorem loadableName_of_loadSchemaLoop {lines : List CStr} {schema : List ColDef}
    (hlines : ∀ line ∈ lines, ∃ body, '\n' ∉ body ∧ line <+: body ++ ['\n'])
    (h : loadSchemaLoop lines = some schema) : ∀ col ∈ schema, LoadableName col.name := by
  induction lines generalizing schema with
  | nil =>
    obtain rfl : [] = schema := Option.some.inj h
    simp
  | cons line lines ih =>
    have ih' := fun {schema} => @ih schema fun l hl => hlines l (by simp [hl])
    rw [loadSchemaLoop] at h
    rcases hparse : parseSchemaDefinition (cstr line) with _ | ⟨name, type⟩ <;>
      simp only [hparse] at h
    · exact absurd h (by simp)
    split_ifs at h with hname
    · exact ih' h
    · split at h
      · exact absurd h (by simp)
      · rename_i t _
        obtain ⟨rest, hrest, rfl⟩ := Option.map_eq_some_iff.mp h
        obtain ⟨body, hbody, hpre⟩ := hlines line (by simp)
        have hcut : (cstr line).take (storageLineMax - 1) <+: body ++ ['\n'] :=
          (List.take_prefix _ _).trans ((List.takeWhile_prefix _).trans hpre)
        have hline := lineOk_of_parse hparse hname (newline_not_mem_trimSpace hbody hcut)
          (nulFree_cstr line)
        rintro col hcol
        rcases List.mem_cons.mp hcol with rfl | hcol
        · exact hline.name
        · exact ih' hrest col hcol

theorem fgetsLoop_line {body : CStr} (hbody : '\n' ∉ body) (rest acc : CStr)
    (hlen : acc.length + body.length < storageLineMax - 1) :
    fgetsLoop (body ++ '\n' :: rest) acc = (acc ++ body ++ ['\n']) :: fgetsLoop rest [] := by
  induction body generalizing acc with
  | nil => simp [fgetsLoop]
  | cons c body ih =>
    obtain ⟨hc, hbody⟩ : '\n' ≠ c ∧ '\n' ∉ body := by simpa using hbody
    rw [List.length_cons] at hlen
    have hnot : ¬ (c = '\n' ∨ acc.length + 1 = storageLineMax - 1) := by
      rintro (h | h)
      · exact hc h.symm
      · omega
    rw [List.cons_append, fgetsLoop, if_neg hnot, ih hbody _ (by simp; omega)]
    simp

/-- A line of a schema file gives its column back. -/
theorem parseSchemaDefinition_schemaLine {d : CStr × CStr} (h : LineOk d) :
    parseSchemaDefinition (cstr (schemaLine d)) = some d := by
  obtain ⟨name, type⟩ := d
  have hname := h.name
  have hnlen := hname.length_le
  have htlen := h.type_length
  have htne := h.type_ne_nil
  simp only at hname hnlen htlen htne
  have hcstr : cstr (schemaLine (name, type)) = schemaLine (name, type) := by
    refine cstr_of_nulFree ?_
    have := hname.nulFree
    have := h.type_nulFree
    simp_all [schemaLine, NulFree]
  have htake : (schemaLine (name, type)).take (storageLineMax - 1) = schemaLine (name, type) := by
    refine List.take_of_length_le ?_
    simp only [schemaLine, storageLineMax, List.length_append, List.length_cons, List.length_nil]
    omega
  have htrimmed : Trimmed (name ++ ',' :: type) := by
    constructor
    · intro c hc
      refine hname.trimmed.1 c ?_
      rwa [List.head?_append_of_ne_nil _ hname.ne_nil] at hc
    · intro c hc
      refine h.type_trimmed.2 c ?_
      rwa [List.getLast?_append_of_ne_nil _ (by simp), List.getLast?_cons_of_ne_nil htne] at hc
  have htrim : trimSpace (schemaLine (name, type)) = name ++ ',' :: type := by
    rw [schemaLine, trimSpace_append_space (by decide), trimSpace_of_trimmed htrimmed]
  have hhead : (name ++ ',' :: type).head? ≠ some '#' := by
    rw [List.head?_append_of_ne_nil _ hname.ne_nil]
    exact hname.not_comment
  have hcut : cutAt (· == ',') (name ++ ',' :: type) = some (name, type) := by
    refine cutAt_append (fun x hx => ?_) (by decide)
    have hx' : x ≠ ',' := fun h => hname.no_comma (h ▸ hx)
    simpa using hx'
  unfold parseSchemaDefinition
  dsimp only
  rw [hcstr, htake, htrim, if_neg (by simpa using hhead), hcut, Option.some_or]
  dsimp only
  rw [trimSpace_of_trimmed hname.trimmed, trimSpace_of_trimmed h.type_trimmed,
    if_neg (by simp [hname.ne_nil, htne]),
    if_neg (by change ¬ (64 < name.length + 1 ∨ 64 < type.length + 1); omega)]

/-- **A file of lines is read as the columns that its lines declare.** -/
theorem loadSchemaLoop_schemaLine {ds : List (CStr × CStr)} (h : ∀ d ∈ ds, LineOk d)
    (schema : List ColDef) :
    loadSchemaLoop (fgetsLoop (ds.flatMap schemaLine) []) = some schema ↔
      List.Forall₂ Declares ds schema := by
  induction ds generalizing schema with
  | nil =>
    rw [List.forall₂_nil_left_iff]
    exact ⟨fun hload => (Option.some.inj hload).symm, fun hnil => hnil ▸ rfl⟩
  | cons d ds ih =>
    have hd := h d (by simp)
    have hlen : ([] : CStr).length + (d.1 ++ ',' :: d.2).length < storageLineMax - 1 := by
      have := hd.name.length_le
      have := hd.type_length
      simp only [storageLineMax, List.length_append, List.length_cons, List.length_nil]
      omega
    have hnewline : '\n' ∉ d.1 ++ ',' :: d.2 := by
      simp [hd.name.no_newline, hd.type_no_newline]
    have hlines : fgetsLoop ((d :: ds).flatMap schemaLine) [] =
        schemaLine d :: fgetsLoop (ds.flatMap schemaLine) [] := by
      rw [List.flatMap_cons, schemaLine, List.append_assoc, List.singleton_append,
        fgetsLoop_line hnewline _ _ hlen, List.nil_append]
    rw [hlines, loadSchemaLoop, parseSchemaDefinition_schemaLine hd]
    dsimp only
    rw [if_neg hd.name.ne_nil]
    cases htype : parseColumnType d.2 with
    | none =>
      refine iff_of_false (by simp) fun hall => ?_
      obtain ⟨col, schema', hcol, -, rfl⟩ := List.forall₂_cons_left_iff.mp hall
      rw [hcol.2] at htype
      exact absurd htype (by simp)
    | some t =>
      dsimp only
      rw [Option.map_eq_some_iff, List.forall₂_cons_left_iff]
      have ih' := ih fun d hd => h d (by simp [hd])
      constructor
      · rintro ⟨rest, hrest, rfl⟩
        exact ⟨⟨d.1, t⟩, rest, ⟨rfl, htype⟩, (ih' rest).mp hrest, rfl⟩
      · rintro ⟨⟨name, t'⟩, rest, ⟨hname, ht⟩, hrest, rfl⟩
        obtain rfl : t = t' := by rw [htype] at ht; exact Option.some.inj ht
        exact ⟨rest, (ih' rest).mpr hrest, by rw [hname]⟩

/-! ## The definitions of a statement -/

theorem toLower_of_isSpace {c : Char} (h : isSpace c = true) : c.toLower = c := by
  have hrange : c.toNat = 32 ∨ 9 ≤ c.toNat ∧ c.toNat ≤ 13 := by
    simp only [isSpace, Bool.or_eq_true, beq_iff_eq, Bool.and_eq_true, decide_eq_true_eq] at h
    rcases h with rfl | h
    · exact .inl rfl
    · exact .inr h
  delta Char.toLower
  refine dif_neg fun hupper => ?_
  have hle : 65 ≤ c.toNat := hupper.1
  omega

/-- A valid type is a word of letters. -/
theorem type_spec {t : CStr} (h : (parseColumnType t).isSome) :
    t ≠ [] ∧ t.length ≤ 8 ∧ ∀ c ∈ t, isSpace c = false ∧ c ≠ ',' ∧ c ≠ '\x00' := by
  obtain ⟨word, hword, heq⟩ : ∃ word ∈ ["INT".toList, "VARCHAR".toList, "FLOAT".toList,
      "BOOLEAN".toList, "DATE".toList, "DATETIME".toList], equalsIgnoreCase t word = true := by
    unfold parseColumnType at h
    split_ifs at h with h₁ h₂ h₃ h₄ h₅ h₆
    · exact ⟨_, by simp, h₁⟩
    · exact ⟨_, by simp, h₂⟩
    · exact ⟨_, by simp, h₃⟩
    · exact ⟨_, by simp, h₄⟩
    · exact ⟨_, by simp, h₅⟩
    · exact ⟨_, by simp, h₆⟩
    · simp at h
  have hlower := equalsIgnoreCase_iff.mp heq
  have hlen := length_eq_of_equalsIgnoreCase heq
  have hwords : ∀ word ∈ ["INT".toList, "VARCHAR".toList, "FLOAT".toList,
      "BOOLEAN".toList, "DATE".toList, "DATETIME".toList],
      0 < word.length ∧ word.length ≤ 8 ∧ (word.map Char.toLower).all
        (fun c => isSpace c = false ∧ c ≠ ',' ∧ c ≠ '\x00') = true := by decide
  obtain ⟨hpos, hle, hall⟩ := hwords word hword
  refine ⟨?_, by omega, fun c hc => ?_⟩
  · rintro rfl
    simp at hlen
    omega
  · have hmem : c.toLower ∈ word.map Char.toLower := hlower ▸ List.mem_map_of_mem hc
    obtain ⟨hspace, hcomma, hnul⟩ := of_decide_eq_true (List.all_eq_true.mp hall _ hmem)
    refine ⟨?_, ?_, ?_⟩
    · by_contra hsp
      rw [Bool.not_eq_false] at hsp
      rw [toLower_of_isSpace hsp, hsp] at hspace
      exact absurd hspace (by simp)
    · rintro rfl
      exact hcomma (by decide)
    · rintro rfl
      exact hnul (by decide)

section
variable {d : CStr × CStr} (hname : LoadableName d.1) (htype : (parseColumnType d.2).isSome)
include hname htype

theorem colDefText_eq : colDefText d = d.1 ++ ' ' :: d.2 := by
  have hn := hname.length_le
  have ht := (type_spec htype).2.1
  refine List.take_of_length_le ?_
  rw [List.length_append, List.length_cons]
  omega

theorem trimSpace_colDefText :
    trimSpace ((colDefText d).take (storageLineMax - 1)) = d.1 ++ ' ' :: d.2 := by
  have hn := hname.length_le
  obtain ⟨hne, ht, hchars⟩ := type_spec htype
  have htake : (colDefText d).take (storageLineMax - 1) = d.1 ++ ' ' :: d.2 := by
    rw [colDefText_eq hname htype]
    refine List.take_of_length_le ?_
    rw [List.length_append, List.length_cons, storageLineMax]
    omega
  rw [htake]
  refine trimSpace_of_trimmed ⟨fun c hc => hname.trimmed.1 c ?_, fun c hc => ?_⟩
  · rwa [List.head?_append_of_ne_nil _ hname.ne_nil] at hc
  · rw [List.getLast?_append_of_ne_nil _ (by simp), List.getLast?_cons_of_ne_nil hne] at hc
    exact (hchars c (List.mem_of_getLast? hc)).1

/-- A definition that is taken apart makes up a line, and no name keeps a blank. -/
theorem lineOk_of_colDefText {p : CStr × CStr} (h : parseSchemaDefinition (colDefText d) = some p) :
    LineOk p ∧ ' ' ∉ p.1 ∧ '\t' ∉ p.1 := by
  have htrim := trimSpace_colDefText hname htype
  obtain ⟨-, -, hchars⟩ := type_spec htype
  have hhead : (d.1 ++ ' ' :: d.2).head? = d.1.head? := List.head?_append_of_ne_nil _ hname.ne_nil
  have hne : p.1 ≠ [] := by
    refine parseSchemaDefinition_name_ne_nil h ?_ ?_ <;> rw [htrim]
    · simp
    · exact hhead ▸ hname.not_comment
  constructor
  · refine lineOk_of_parse h hne ?_ ?_
    · rw [htrim]
      simp only [List.mem_append, List.mem_cons, not_or]
      refine ⟨hname.no_newline, by decide, fun hin => ?_⟩
      exact absurd (hchars _ hin).1 (by decide)
    · rw [colDefText_eq hname htype]
      simp only [NulFree, List.mem_append, List.mem_cons, not_or]
      exact ⟨hname.nulFree, by decide, fun hin => (hchars _ hin).2.2 rfl⟩
  · obtain ⟨name, type⟩ := p
    obtain ⟨a, c, b, hsplit, rfl, -, -, -, -, -, -, hblank⟩ := parseSchemaDefinition_spec h hne
    have hcomma : ',' ∉ a ++ c :: b := by
      rw [← hsplit, htrim]
      simp only [List.mem_append, List.mem_cons, not_or]
      exact ⟨hname.no_comma, by decide, fun hin => (hchars _ hin).2.1 rfl⟩
    obtain ⟨hspace, htab⟩ := hblank hcomma
    exact ⟨fun hin => hspace (mem_of_mem_trimSpace hin), fun hin => htab (mem_of_mem_trimSpace hin)⟩

/-- A clean definition is taken apart into its name and its type. -/
theorem parseSchemaDefinition_colDefText (hspace : ' ' ∉ d.1) (htab : '\t' ∉ d.1) :
    parseSchemaDefinition (colDefText d) = some d := by
  obtain ⟨hne, hlen, hchars⟩ := type_spec htype
  have hn := hname.length_le
  have hcomma : cutAt (· == ',') (d.1 ++ ' ' :: d.2) = none := by
    refine cutAt_eq_none_iff.mpr fun x hx => beq_eq_false_iff_ne.mpr ?_
    rintro rfl
    simp only [List.mem_append, List.mem_cons] at hx
    rcases hx with hx | hx | hx
    · exact hname.no_comma hx
    · exact absurd hx (by decide)
    · exact (hchars _ hx).2.1 rfl
  have hcut : cutAt (fun c => c == ' ' || c == '\t') (d.1 ++ ' ' :: d.2) = some d := by
    refine cutAt_append (fun x hx => ?_) (by decide)
    simp only [Bool.or_eq_false_iff, beq_eq_false_iff_ne]
    exact ⟨fun h => hspace (h ▸ hx), fun h => htab (h ▸ hx)⟩
  have htrim₁ : trimSpace d.1 = d.1 := trimSpace_of_trimmed hname.trimmed
  have htrim₂ : trimSpace d.2 = d.2 := trimSpace_of_trimmed
    ⟨fun c hc => (hchars c (List.mem_of_head? hc)).1,
      fun c hc => (hchars c (List.mem_of_getLast? hc)).1⟩
  have hhead : (d.1 ++ ' ' :: d.2).head? ≠ some '#' := by
    rw [List.head?_append_of_ne_nil _ hname.ne_nil]
    exact hname.not_comment
  unfold parseSchemaDefinition
  dsimp only
  rw [trimSpace_colDefText hname htype, if_neg (by simpa using hhead), hcomma, Option.none_or, hcut]
  dsimp only
  rw [htrim₁, htrim₂, if_neg (by simp [hname.ne_nil, hne]),
    if_neg (by change ¬ (64 < d.1.length + 1 ∨ 64 < d.2.length + 1); omega)]

end

theorem exists_of_forall₂ {α β : Type*} {r : α → β → Prop} {l : List α} {l' : List β}
    (h : List.Forall₂ r l l') : (∀ a ∈ l, ∃ b ∈ l', r a b) ∧ ∀ b ∈ l', ∃ a ∈ l, r a b := by
  induction h with
  | nil => simp
  | @cons a b l l' hab _ ih =>
    constructor
    · rintro x (_ | ⟨_, hx⟩)
      · exact ⟨b, by simp, hab⟩
      · obtain ⟨y, hy, hxy⟩ := ih.1 x hx
        exact ⟨y, by simp [hy], hxy⟩
    · rintro y (_ | ⟨_, hy⟩)
      · exact ⟨a, by simp, hab⟩
      · obtain ⟨x, hx, hxy⟩ := ih.2 y hy
        exact ⟨x, by simp [hx], hxy⟩

/-- **The declared columns come back from the file exactly when all their names are clean and
all their types valid.** -/
theorem parseSchema_schemaLine_iff {declared ps : List (CStr × CStr)} (hne : declared ≠ [])
    (hps : List.Forall₂ (fun d p => parseSchemaDefinition (colDefText d) = some p) declared ps) :
    (∃ schema, parseSchema (ps.flatMap schemaLine) = some schema ∧
        List.Forall₂ Declares declared schema) ↔
      ∀ d ∈ declared, CleanName d.1 ∧ (parseColumnType d.2).isSome := by
  constructor
  · rintro ⟨schema, hload, hdecl⟩
    have hloop : loadSchemaLoop (fgetsLoop (ps.flatMap schemaLine) []) = some schema := by
      unfold parseSchema at hload
      split at hload
      · rename_i h
        rw [h, hload]
      · exact absurd hload (by simp)
    have hnames := loadableName_of_loadSchemaLoop
      (fun line => newline_of_mem_fgetsLoop (by simp)) hloop
    have hgood : ∀ d ∈ declared, LoadableName d.1 ∧ (parseColumnType d.2).isSome := by
      intro d hd
      obtain ⟨col, hcol, hname, htype⟩ := (exists_of_forall₂ hdecl).1 d hd
      exact ⟨hname ▸ hnames col hcol, by rw [htype]; rfl⟩
    have hlines : ∀ p ∈ ps, LineOk p ∧ ' ' ∉ p.1 ∧ '\t' ∉ p.1 := by
      intro p hp
      obtain ⟨d, hd, hparse⟩ := (exists_of_forall₂ hps).2 p hp
      exact lineOk_of_colDefText (hgood d hd).1 (hgood d hd).2 hparse
    have hread := (loadSchemaLoop_schemaLine (fun p hp => (hlines p hp).1) schema).mp hloop
    intro d hd
    -- the name that came back is the name of some line, which has no blank
    obtain ⟨col, hcol, hname, -⟩ := (exists_of_forall₂ hdecl).1 d hd
    obtain ⟨p, hp, hname', -⟩ := (exists_of_forall₂ hread).2 col hcol
    obtain ⟨-, hblanks⟩ := hlines p hp
    rw [hname', ← hname] at hblanks
    exact ⟨⟨(hgood d hd).1, hblanks⟩, (hgood d hd).2⟩
  · intro hclean
    have hself : ∀ d ∈ declared, parseSchemaDefinition (colDefText d) = some d := fun d hd =>
      parseSchemaDefinition_colDefText (hclean d hd).1.1 (hclean d hd).2 (hclean d hd).1.2.1
        (hclean d hd).1.2.2
    have hsame : declared = ps := by
      rw [← List.forall₂_eq_eq_eq]
      refine List.Forall₂.imp ?_ ((List.forall₂_and_left _ _).mpr ⟨hself, hps⟩)
      rintro d p ⟨h, h'⟩
      exact Option.some.inj (h.symm.trans h')
    subst hsame
    have hlines : ∀ d ∈ declared, LineOk d := fun d hd =>
      (lineOk_of_colDefText (hclean d hd).1.1 (hclean d hd).2 (hself d hd)).1
    have hdecl : List.Forall₂ Declares declared
        (declared.map fun d => ⟨d.1, (parseColumnType d.2).getD .int⟩) := by
      rw [List.forall₂_map_right_iff, List.forall₂_same]
      intro d hd
      obtain ⟨t, ht⟩ := Option.isSome_iff_exists.mp (hclean d hd).2
      exact ⟨rfl, by rw [ht]; rfl⟩
    refine ⟨_, ?_, hdecl⟩
    rw [parseSchema, (loadSchemaLoop_schemaLine hlines _).mpr hdecl]
    cases declared with
    | nil => exact absurd rfl hne
    | cons d ds => rfl

end MiniSql

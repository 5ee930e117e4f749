import SpartanLauncher.IniFile
import SpartanLauncher.PidFile

/-!
# The configuration file

`process_config` looks for the file, has it parsed, and throws an exception with the errors that
it was notified of.

* `Layout`: what a user may write around a setting: blanks, comments, empty lines.
* `writeLines`: the lines of a file with given settings in given layouts, and what stands below.

**Theorem (`settings_round_trip_iff`).** A list of settings, written one to a line with a header
wherever the section changes, is what the handler gets exactly when each of them is readable.

**Theorem (`layout_irrelevant`).** In whatever layout readable settings are written, the handler
gets these settings in their order.

**Theorem (`config_error_iff`).** The exception is thrown exactly when there is a malformed line;
its text has the number of the first one, and the handler got what stands above that line.

A comment behind an empty value is not a comment: `lskip` has taken off the blank in front of it.
-/

namespace Spartan

open CString Lines

/-! ## The functions -/

/-- What the file system has to say about a path. -/
structure CfgFile where
  /-- `stat` finds a regular file. -/
  isRegular : Bool
  /-- `fopen`: the contents of the file, or `errno`. -/
  opened : Except ℤ (List Char)
  /-- `errno` when `fclose` fails. -/
  closeError : ℤ := 0

variable {σ : Type*}

/-- `ini_parse` on a file name: the state of the handler, the result, and the codes that
`error_code` gets, with the line of `ini.cpp`. -/
def iniParse (handler : CfgParseHandler σ) (file : CfgFile) (user : σ) : σ × ℤ × List (ℤ × ℕ) :=
  match file.opened with
  | .error errno => (user, -1, [(errno, 186)])
  | .ok contents =>
    let s := iniParseFileCore handler contents user
    if s.error ≠ 0 then (s.user, -1, [(s.error, 193)])
    else if file.closeError ≠ 0 then (s.user, -1, [(file.closeError, 197)])
    else (s.user, 0, [])

/-- `config_file_parse_err_fmt`. -/
def configFileParseErr (ec : ℤ) (op : List Char) (ln : ℕ) : List Char :=
  "config file parsing error ".toList ++ printDec ec ++ " in ".toList ++ op ++
    "() at line ".toList ++ printDec ln ++ "\n".toList

/-- `config_file_load_err_fmt`. -/
def configFileLoadErr (path : List Char) : List Char :=
  "can't load \"".toList ++ path ++ "\"\n".toList

/-- `process_config`; an error is the text of `process_cfg_exception`. -/
def processConfig (fileAt : List Char → CfgFile) (dirpath cfgfilename : List Char)
    (handler : CfgParseHandler σ) (user : σ) : σ × Except (List Char) Bool :=
  let cfgfullfilepath := pathConcat dirpath cfgfilename
  let file := fileAt cfgfullfilepath
  if file.isRegular then
    let (user, rc, errs) := iniParse handler file user
    if rc < 0 then
      (user, .error (configFileLoadErr cfgfullfilepath ++
        errs.flatMap fun e => configFileParseErr e.1 "ini_parse".toList e.2))
    else (user, .ok true)
  else (user, .ok false)

/-! ## Layouts -/

/-- White space within a line. -/
structure Blanks where
  text : List Char := []
  blank : ∀ c ∈ text, isSpace c = true ∧ c ≠ '\n' := by simp

/-- Some text within a line. -/
structure Remark where
  text : List Char := []
  isText : IsText text := by exact ⟨by simp, by simp⟩

/-- A line without a setting: empty, or a comment. -/
structure RemarkLine where
  indent : Blanks := {}
  /-- The comment, and whether it starts with `;` or with `#`. -/
  comment : Option (Bool × Remark) := none

/-- A comment on the line of a setting, with the white space that its `;` needs in front of it. -/
structure EndRemark extends Remark where
  blank : Char
  isBlank : isSpace blank = true ∧ blank ≠ '\n'

/-- What stands around a setting. -/
structure Layout where
  /-- The lines above, -/
  above : List RemarkLine := []
  /-- the indentation of the header, what follows it, and the lines below, when there is one, -/
  headerIndent : Blanks := {}
  headerEnd : Remark := {}
  belowHeader : List RemarkLine := []
  /-- and the blanks and the comment on the line of the setting itself. -/
  indent : Blanks := {}
  beforeEquals : Blanks := {}
  afterEquals : Blanks := {}
  lineEnd : Blanks := {}
  comment : Option EndRemark := none

def RemarkLine.text (l : RemarkLine) : List Char :=
  l.indent.text ++ match l.comment with
    | none => []
    | some (semicolon, c) => (if semicolon then ';' else '#') :: c.text

def Layout.headerLine (l : Layout) (sectionName : List Char) : List Char :=
  l.headerIndent.text ++ '[' :: (sectionName ++ ']' :: l.headerEnd.text)

def Layout.commentText (l : Layout) : List Char :=
  match l.comment with
  | none => []
  | some c => c.blank :: ';' :: c.text

def Layout.settingLine (l : Layout) (name value : List Char) : List Char :=
  l.indent.text ++ (name ++ (l.beforeEquals.text ++ '=' ::
    (l.afterEquals.text ++ (value ++ (l.lineEnd.text ++ l.commentText)))))

/-- The lines of a setting; `previous` is the section of the one above it. -/
def Layout.lines (l : Layout) (previous : Option (List Char)) (e : ConfigEntry) :
    List (List Char) :=
  l.above.map RemarkLine.text ++
    ((if previous = some e.sectionName then []
      else l.headerLine e.sectionName :: l.belowHeader.map RemarkLine.text) ++
      [l.settingLine e.name e.value])

/-- The lines of the settings, and those `below` the last one. -/
def writeLines (below : List RemarkLine) (previous : Option (List Char)) :
    List (Layout × ConfigEntry) → List (List Char)
  | [] => below.map RemarkLine.text
  | (l, e) :: settings => l.lines previous e ++ writeLines below (some e.sectionName) settings

/-- Each line with its newline. -/
def unlines (lines : List (List Char)) : List Char := lines.flatMap (· ++ ['\n'])

/-- One setting to a line, and nothing else. -/
def writeSettings (entries : List ConfigEntry) : List Char :=
  unlines (writeLines [] none (entries.map fun e => ({}, e)))

/-! ## The lines one by one -/

theorem isText_append {s t : List Char} : IsText (s ++ t) ↔ IsText s ∧ IsText t := by
  refine ⟨?_, ?_⟩
  · intro h
    exact ⟨h.of_sublist (List.sublist_append_left s t),
      h.of_sublist (List.sublist_append_right s t)⟩
  · intro h
    obtain ⟨hs, ht⟩ := h
    exact ⟨by simp [hs.newline, ht.newline], by simp [hs.nul, ht.nul]⟩

theorem isText_cons {c : Char} {s : List Char} (hnl : c ≠ '\n') (hnul : c ≠ '\x00') :
    IsText (c :: s) ↔ IsText s := by
  refine ⟨fun h => h.of_sublist (List.sublist_cons_self c s), ?_⟩
  intro h
  exact ⟨by simp [hnl.symm, h.newline], by simp [hnul.symm, h.nul]⟩

theorem isText_nil : IsText [] := ⟨by simp, by simp⟩

theorem Blanks.isSpace (b : Blanks) : ∀ c ∈ b.text, isSpace c = true := fun c hc => (b.blank c hc).1

theorem Blanks.isText (b : Blanks) : IsText b.text where
  newline hmem := (b.blank _ hmem).2 rfl
  nul := notMem_of_isSpace b.isSpace rfl

theorem isText_remarkLine (l : RemarkLine) : IsText l.text := by
  rw [RemarkLine.text, isText_append]
  refine ⟨l.indent.isText, ?_⟩
  cases l.comment with
  | none => exact isText_nil
  | some c =>
    by_cases hsemicolon : c.1 = true
    · simpa [hsemicolon] using (isText_cons (by decide) (by decide)).2 c.2.isText
    · simpa [hsemicolon] using (isText_cons (by decide) (by decide)).2 c.2.isText

theorem isText_headerLine (l : Layout) {sectionName : List Char} (h : IsText sectionName) :
    IsText (l.headerLine sectionName) := by
  rw [Layout.headerLine, isText_append, isText_cons (by decide) (by decide), isText_append,
    isText_cons (by decide) (by decide)]
  exact ⟨l.headerIndent.isText, h, l.headerEnd.isText⟩

theorem isText_commentText (l : Layout) : IsText l.commentText := by
  rw [Layout.commentText]
  cases l.comment with
  | none => exact isText_nil
  | some c =>
    dsimp only
    obtain ⟨hspace, hnewline⟩ := c.isBlank
    have hnul : c.blank ≠ '\x00' := by
      intro h
      rw [h] at hspace
      exact absurd hspace (by decide)
    rw [isText_cons hnewline hnul, isText_cons (by decide) (by decide)]
    exact c.isText

theorem isText_settingLine (l : Layout) {name value : List Char} (hname : IsText name)
    (hvalue : IsText value) : IsText (l.settingLine name value) := by
  rw [Layout.settingLine, isText_append, isText_append, isText_append,
    isText_cons (by decide) (by decide), isText_append, isText_append, isText_append]
  exact ⟨l.indent.isText, hname, l.beforeEquals.isText, l.afterEquals.isText, hvalue,
    l.lineEnd.isText, isText_commentText l⟩

/-- Stripping a line up to the last place that is known to be no blank. -/
theorem lskip_rstrip_line {bl s t : List Char} {c : Char} (hbl : ∀ x ∈ bl, isSpace x = true)
    (hs : ∀ x ∈ s.head?, isSpace x = false) (hc : isSpace c = false) :
    lskip (rstrip (bl ++ (s ++ c :: t))) = s ++ c :: rstrip t := by
  have hstrip : rstrip (bl ++ (s ++ c :: t)) = bl ++ (s ++ c :: rstrip t) := by
    have hlast := rdropWhile_append_of_last (p := isSpace) (s := bl ++ (s ++ [c])) (t := t) (by
      intro x hx
      rw [← List.append_assoc, List.getLast?_concat] at hx
      cases hx
      exact hc)
    simpa [rstrip] using hlast
  rw [hstrip]
  refine dropWhile_padded hbl ?_
  intro x hx
  cases s with
  | nil =>
    cases hx
    exact hc
  | cons d s => exact hs x hx

theorem iniLine_remark (l : RemarkLine) : iniLine (lskip (rstrip l.text)) = .blank := by
  rw [RemarkLine.text]
  cases l.comment with
  | none =>
    have hnil : rstrip (l.indent.text ++ []) = [] := by
      rw [List.append_nil]
      exact List.rdropWhile_eq_nil_iff.2 l.indent.isSpace
    rw [hnil]
    rfl
  | some c =>
    have hmark : isSpace (if c.1 = true then ';' else '#') = false := by
      by_cases hsemicolon : c.1 = true <;> simp [hsemicolon] <;> decide
    have hline := lskip_rstrip_line (s := []) (t := c.2.text) l.indent.isSpace (by simp) hmark
    rw [List.nil_append, List.nil_append] at hline
    rw [hline, iniLine, if_pos]
    by_cases hsemicolon : c.1 = true <;> simp [hsemicolon]

theorem iniLine_headerLine (l : Layout) {sectionName : List Char}
    (h : IsSectionName sectionName) :
    iniLine (lskip (rstrip (l.headerLine sectionName))) = .header sectionName := by
  have hline := lskip_rstrip_line (s := '[' :: sectionName) (t := l.headerEnd.text) (c := ']')
    l.headerIndent.isSpace (by rintro x ⟨⟩; rfl) rfl
  rw [Layout.headerLine, ← List.cons_append, hline]
  exact iniLine_header h _

theorem iniLine_settingLine (l : Layout) {name value : List Char} (hname : IsSettingName name)
    (hvalue : IsSettingValue value) (hcomment : value = [] → l.comment = none) :
    iniLine (lskip (rstrip (l.settingLine name value))) = .setting name value := by
  have hend : iniValue (rstrip (l.afterEquals.text ++
      (value ++ (l.lineEnd.text ++ l.commentText)))) = value := by
    rw [Layout.commentText]
    cases hc : l.comment with
    | none =>
      rw [List.append_nil]
      exact iniValue_text hvalue l.afterEquals.isSpace l.lineEnd.isSpace
    | some c =>
      have hne : value ≠ [] := by
        intro hnil
        rw [hcomment hnil] at hc
        cases hc
      exact iniValue_commented hvalue hne l.afterEquals.isSpace l.lineEnd.isSpace c.isBlank.1
        c.text
  by_cases hnil : name = []
  · have hblanks : ∀ x ∈ l.indent.text ++ l.beforeEquals.text, isSpace x = true := by
      intro x hx
      rcases List.mem_append.1 hx with hx | hx
      · exact l.indent.isSpace x hx
      · exact l.beforeEquals.isSpace x hx
    have hline := lskip_rstrip_line (s := []) (c := '=')
      (t := l.afterEquals.text ++ (value ++ (l.lineEnd.text ++ l.commentText))) hblanks
      (by simp) rfl
    rw [List.nil_append, List.nil_append, List.append_assoc] at hline
    have hsetting : iniLine ([] ++ ([] ++ '=' :: rstrip (l.afterEquals.text ++
        (value ++ (l.lineEnd.text ++ l.commentText))))) = .setting [] value := by
      rw [iniLine_setting (hnil ▸ hname) (by simp) (fun _ => rfl), hend]
    rw [List.nil_append, List.nil_append] at hsetting
    rw [Layout.settingLine, hnil, List.nil_append, hline, hsetting]
  · have hhead : ∀ x ∈ (name ++ l.beforeEquals.text).head?, isSpace x = false := by
      intro x hx
      rw [List.head?_append_of_ne_nil _ hnil] at hx
      exact hname.trimmed.head x hx
    have hline := lskip_rstrip_line (c := '=')
      (t := l.afterEquals.text ++ (value ++ (l.lineEnd.text ++ l.commentText)))
      l.indent.isSpace hhead rfl
    rw [List.append_assoc, List.append_assoc] at hline
    rw [Layout.settingLine, hline, iniLine_setting hname l.beforeEquals.isSpace
      (fun h => absurd h hnil), hend]

/-! ## The lines of a file -/

/-- A handler that accepts every setting. -/
def accepting (handle : σ → ConfigEntry → σ) : CfgParseHandler σ :=
  fun user e => (handle user e, true)

/-- The lines take the loop from one state to another, from line number `first` on. -/
def Parses (handler : CfgParseHandler σ) (first : ℕ) (lines : List (List Char))
    (s t : IniState σ) : Prop :=
  ∀ n rest, first ≤ n → ∃ m, n + lines.length ≤ m ∧
    iniParseFrom handler (unlines lines ++ rest) { s with lineno := n } =
      iniParseFrom handler rest { t with lineno := m }

section Parses

variable {handler : CfgParseHandler σ} {first : ℕ} {lines lines' : List (List Char)}
  {s t u : IniState σ}

theorem Parses.nil : Parses handler first [] s s := fun n _ _ => ⟨n, le_rfl, rfl⟩

theorem Parses.append (h : Parses handler first lines s t)
    (h' : Parses handler (first + lines.length) lines' t u) :
    Parses handler first (lines ++ lines') s u := by
  intro n rest hn
  obtain ⟨m, hm, hparse⟩ := h n (unlines lines' ++ rest) hn
  obtain ⟨k, hk, hparse'⟩ := h' m rest (by omega)
  refine ⟨k, by rw [List.length_append]; omega, ?_⟩
  rw [unlines, List.flatMap_append, List.append_assoc]
  exact hparse.trans hparse'

/-- Without an error, the line number does not matter. -/
theorem accept_lineno {l : IniLine} (herror : (s.accept handler l).error = 0) (n : ℕ) :
    IniState.accept handler { s with lineno := n } l =
      { s.accept handler l with lineno := n + 1 } := by
  cases l with
  | blank | header | malformed => first | rfl | cases herror
  | setting name value =>
    simp only [IniState.accept] at herror ⊢
    by_cases hsuccess : (handler s.user ⟨s.sectionName, name, value⟩).2 = true
    · simp [hsuccess]
    · simp [hsuccess] at herror

theorem Parses.line {line : List Char} {l : IniLine} (htext : IsText line)
    (hfits : line.length < iniMaxLine) (hline : iniLine (lskip (rstrip line)) = l)
    (hbom : first = 0 → ¬bom <+: line) (herror : (s.accept handler l).error = 0) :
    Parses handler first [line] s (s.accept handler l) := by
  intro n rest hn
  have hstart : iniStart (n + 1) (cstr line) = lskip (rstrip line) := by
    rw [cstr_of_nulFree htext.nul]
    exact iniStart_of_not_bom fun h => hbom (by omega)
  have hnext : IniState.next handler { s with lineno := n } line =
      { s.accept handler l with lineno := n + 1 } := by
    rw [← accept_lineno herror n, ← hline, ← hstart]
    rfl
  obtain ⟨m, hm, hparse⟩ := iniParseFrom_line (s := { s with lineno := n }) htext hfits
    (by rw [hnext]; exact herror) rest
  refine ⟨m, hm, ?_⟩
  rw [hnext] at hparse
  have hcons : unlines [line] ++ rest = line ++ '\n' :: rest := by simp [unlines]
  rw [hcons, hparse]

end Parses

theorem not_bom_of_head {c : Char} {line : List Char} (h : line.head? = some c) (hc : c ≠ '\xef') :
    ¬bom <+: line := by
  intro hbom
  have hhead := mem_head_mono hbom (c := '\xef') rfl
  rw [h, Option.mem_some_iff] at hhead
  exact hc hhead

theorem head_ne_bom {bl s : List Char} (hbl : ∀ x ∈ bl, isSpace x = true) {c : Char}
    (hc : c ≠ '\xef') : ¬bom <+: bl ++ c :: s := by
  cases bl with
  | nil => exact not_bom_of_head rfl hc
  | cons d bl =>
    refine not_bom_of_head rfl ?_
    intro h
    subst h
    exact absurd (hbl _ List.mem_cons_self) (by decide)

theorem not_bom_remark (l : RemarkLine) : ¬bom <+: l.text := by
  rw [RemarkLine.text]
  cases l.comment with
  | none =>
    intro hbom
    rw [List.append_nil] at hbom
    have hspace := l.indent.isSpace '\xef' (hbom.subset (by simp [bom]))
    exact absurd hspace (by decide)
  | some c =>
    apply head_ne_bom l.indent.isSpace
    by_cases hsemicolon : c.1 = true <;> simp [hsemicolon]

section Layouts

variable {first : ℕ} {s : IniState σ}

theorem parses_remarks (handle : σ → ConfigEntry → σ) (first : ℕ) {remarks : List RemarkLine}
    (herror : s.error = 0)
    (hfits : ∀ line ∈ remarks.map RemarkLine.text, line.length < iniMaxLine) :
    ∃ t, t.error = 0 ∧ t.sectionName = s.sectionName ∧ t.user = s.user ∧
      Parses (accepting handle) first (remarks.map RemarkLine.text) s t := by
  induction remarks generalizing first s with
  | nil => exact ⟨s, herror, rfl, rfl, Parses.nil⟩
  | cons l remarks ih =>
    rw [List.map_cons] at hfits ⊢
    have hline : Parses (accepting handle) first [l.text] s
        (s.accept (accepting handle) .blank) :=
      Parses.line (isText_remarkLine l) (hfits _ List.mem_cons_self) (iniLine_remark l)
        (fun _ => not_bom_remark l) herror
    obtain ⟨t, ht, hsection, huser, hparse⟩ :=
      ih (first + 1) (s := s.accept (accepting handle) .blank) herror
        fun line hmem => hfits line (List.mem_cons_of_mem _ hmem)
    exact ⟨t, ht, hsection, huser, hline.append hparse⟩

theorem parses_setting (handle : σ → ConfigEntry → σ) (l : Layout) {e : ConfigEntry}
    (herror : s.error = 0) (hsection : s.sectionName = e.sectionName) (hfirst : 0 < first)
    (hreadable : Readable e) (hcomment : e.value = [] → l.comment = none)
    (hfits : (l.settingLine e.name e.value).length < iniMaxLine) :
    ∃ t, t.error = 0 ∧ t.sectionName = e.sectionName ∧ t.user = handle s.user e ∧
      Parses (accepting handle) first [l.settingLine e.name e.value] s t := by
  have hline : Parses (accepting handle) first [l.settingLine e.name e.value] s
      (s.accept (accepting handle) (.setting e.name e.value)) :=
    Parses.line (isText_settingLine l hreadable.name.toIsText hreadable.value.toIsText) hfits
      (iniLine_settingLine l hreadable.name hreadable.value hcomment)
      (fun h => absurd h hfirst.ne') herror
  refine ⟨s.accept (accepting handle) (.setting e.name e.value), herror, hsection, ?_, hline⟩
  show handle s.user ⟨s.sectionName, e.name, e.value⟩ = handle s.user e
  rw [hsection]

/-- The header, with the lines below it. -/
theorem parses_header (handle : σ → ConfigEntry → σ) (first : ℕ) (l : Layout)
    {sectionName : List Char} (herror : s.error = 0) (hname : IsSectionName sectionName)
    (hfits : ∀ line ∈ l.headerLine sectionName :: l.belowHeader.map RemarkLine.text,
      line.length < iniMaxLine) :
    ∃ t, t.error = 0 ∧ t.sectionName = sectionName ∧ t.user = s.user ∧
      Parses (accepting handle) first
        (l.headerLine sectionName :: l.belowHeader.map RemarkLine.text) s t := by
  have hheader : Parses (accepting handle) first [l.headerLine sectionName] s
      (s.accept (accepting handle) (.header sectionName)) :=
    Parses.line (isText_headerLine l hname.toIsText) (hfits _ List.mem_cons_self)
      (iniLine_headerLine l hname)
      (fun _ => head_ne_bom l.headerIndent.isSpace (by decide)) herror
  obtain ⟨t, ht, hsection, huser, hbelow⟩ := parses_remarks handle (first + 1)
    (s := s.accept (accepting handle) (.header sectionName)) herror
    fun line hmem => hfits line (List.mem_cons_of_mem _ hmem)
  exact ⟨t, ht, hsection, huser, hheader.append hbelow⟩

/-- **Step lemma.** The lines of one setting, with those above it. -/
theorem parses_lines (handle : σ → ConfigEntry → σ) (first : ℕ) (l : Layout)
    {previous : Option (List Char)} {e : ConfigEntry} (herror : s.error = 0)
    (hprevious : ∀ sec ∈ previous, s.sectionName = sec ∧ 0 < first)
    (hreadable : Readable e) (hcomment : e.value = [] → l.comment = none)
    (hfits : ∀ line ∈ l.lines previous e, line.length < iniMaxLine) :
    ∃ t, t.error = 0 ∧ t.sectionName = e.sectionName ∧ t.user = handle s.user e ∧
      Parses (accepting handle) first (l.lines previous e) s t := by
  have hremarks : ∀ line ∈ l.above.map RemarkLine.text, line.length < iniMaxLine :=
    fun line hmem => hfits line (List.mem_append_left _ hmem)
  obtain ⟨t, ht, hsection, huser, habove⟩ := parses_remarks handle first herror hremarks
  have hsetting : (l.settingLine e.name e.value).length < iniMaxLine :=
    hfits _ (List.mem_append_right _ (List.mem_append_right _ (List.mem_singleton_self _)))
  by_cases hsame : previous = some e.sectionName
  · obtain ⟨hsec, hfirst⟩ := hprevious e.sectionName hsame
    have hlater : 0 < first + (l.above.map RemarkLine.text).length := by omega
    obtain ⟨u, hu, husec, huuser, hparse⟩ := parses_setting handle l ht (hsection.trans hsec)
      hlater hreadable hcomment hsetting
    refine ⟨u, hu, husec, by rw [huuser, huser], ?_⟩
    rw [Layout.lines, if_pos hsame, List.nil_append]
    exact habove.append hparse
  · have hheader : ∀ line ∈ l.headerLine e.sectionName :: l.belowHeader.map RemarkLine.text,
        line.length < iniMaxLine := by
      intro line hmem
      apply hfits
      rw [Layout.lines, if_neg hsame]
      exact List.mem_append_right _ (List.mem_append_left _ hmem)
    obtain ⟨v, hv, hvsec, hvuser, hparseHeader⟩ := parses_header handle
      (first + (l.above.map RemarkLine.text).length) l ht hreadable.sectionName hheader
    have hlater : 0 < first + (l.above.map RemarkLine.text).length +
        (l.headerLine e.sectionName :: l.belowHeader.map RemarkLine.text).length := by
      rw [List.length_cons]
      omega
    obtain ⟨u, hu, husec, huuser, hparse⟩ := parses_setting handle l hv hvsec hlater hreadable
      hcomment hsetting
    refine ⟨u, hu, husec, by rw [huuser, hvuser, huser], ?_⟩
    rw [Layout.lines, if_neg hsame]
    exact habove.append (hparseHeader.append hparse)

/-- **Run lemma.** The lines of all settings, and those below. -/
theorem parses_writeLines (handle : σ → ConfigEntry → σ) (first : ℕ) {below : List RemarkLine}
    {settings : List (Layout × ConfigEntry)}
    {previous : Option (List Char)} (herror : s.error = 0)
    (hprevious : ∀ sec ∈ previous, s.sectionName = sec ∧ 0 < first)
    (hreadable : ∀ p ∈ settings, Readable p.2)
    (hcomment : ∀ p ∈ settings, p.2.value = [] → p.1.comment = none)
    (hfits : ∀ line ∈ writeLines below previous settings, line.length < iniMaxLine) :
    ∃ t, t.error = 0 ∧ t.user = (settings.map Prod.snd).foldl handle s.user ∧
      Parses (accepting handle) first (writeLines below previous settings) s t := by
  induction settings generalizing previous first s with
  | nil =>
    obtain ⟨t, ht, -, huser, hparse⟩ := parses_remarks handle first herror hfits
    exact ⟨t, ht, huser, hparse⟩
  | cons p settings ih =>
    obtain ⟨l, e⟩ := p
    obtain ⟨t, ht, hsection, huser, hparse⟩ := parses_lines handle first l
      herror hprevious (hreadable _ List.mem_cons_self) (hcomment _ List.mem_cons_self)
      fun line hmem => hfits line (List.mem_append_left _ hmem)
    have hsome : ∀ sec ∈ some e.sectionName,
        t.sectionName = sec ∧ 0 < first + (l.lines previous e).length := by
      intro sec h
      cases h
      exact ⟨hsection, by simp [Layout.lines]⟩
    obtain ⟨u, hu, huuser, hrest⟩ := ih (first + (l.lines previous e).length) ht hsome
      (fun q hq => hreadable q (List.mem_cons_of_mem _ hq))
      (fun q hq => hcomment q (List.mem_cons_of_mem _ hq))
      fun line hmem => hfits line (List.mem_append_right _ hmem)
    exact ⟨u, hu, by rw [huuser, huser]; rfl, hparse.append hrest⟩

/-- The parser on a file of laid out settings. -/
theorem iniParseFileCore_writeLines (handle : σ → ConfigEntry → σ) (user : σ)
    {below : List RemarkLine} {settings : List (Layout × ConfigEntry)}
    (hreadable : ∀ p ∈ settings, Readable p.2)
    (hcomment : ∀ p ∈ settings, p.2.value = [] → p.1.comment = none)
    (hfits : ∀ line ∈ writeLines below none settings, line.length < iniMaxLine) :
    (iniParseFileCore (accepting handle) (unlines (writeLines below none settings)) user).error =
        0 ∧
      (iniParseFileCore (accepting handle) (unlines (writeLines below none settings)) user).user =
        (settings.map Prod.snd).foldl handle user := by
  obtain ⟨t, ht, huser, hparse⟩ := parses_writeLines handle 0 (s := { user }) rfl (by simp)
    hreadable hcomment hfits
  obtain ⟨m, -, hparse⟩ := hparse 0 [] le_rfl
  have hend : iniParseFileCore (accepting handle) (unlines (writeLines below none settings)) user =
      { t with lineno := m } := by
    rw [List.append_nil] at hparse
    exact hparse
  rw [hend]
  exact ⟨ht, huser⟩

end Layouts

/-! ## Results -/

theorem fits_writeSettings {entries : List ConfigEntry} {previous : Option (List Char)}
    (h : ∀ e ∈ entries, Readable e) :
    ∀ line ∈ writeLines [] previous (entries.map fun e => (({} : Layout), e)),
      line.length < iniMaxLine := by
  induction entries generalizing previous with
  | nil => simp [writeLines]
  | cons e entries ih =>
    have he := h e List.mem_cons_self
    intro line hline
    rw [List.map_cons, writeLines] at hline
    rcases List.mem_append.1 hline with hline | hline
    · have hshort := he.sectionName.short
      have hfits := he.fits
      have hcases : line = ({} : Layout).headerLine e.sectionName ∨
          line = ({} : Layout).settingLine e.name e.value := by
        by_cases hsame : previous = some e.sectionName
        · exact .inr (by simpa [Layout.lines, hsame] using hline)
        · simpa [Layout.lines, hsame] using hline
      rcases hcases with rfl | rfl
      · simp only [Layout.headerLine, maxSection, iniMaxLine, List.nil_append, List.length_cons,
          List.length_append, List.length_nil] at hshort ⊢
        omega
      · simp only [Layout.settingLine, Layout.commentText, List.nil_append, List.length_append,
          List.length_cons, List.length_nil] at hfits ⊢
        omega
    · exact ih (fun e' he' => h e' (List.mem_cons_of_mem e he')) line hline

theorem foldl_record (entries delivered : List ConfigEntry) :
    entries.foldl (fun es e => es ++ [e]) delivered = delivered ++ entries := by
  induction entries generalizing delivered with
  | nil => rw [List.foldl_nil, List.append_nil]
  | cons e entries ih => rw [List.foldl_cons, ih, List.append_assoc]; rfl

/-- **Round trip.** -/
theorem settings_round_trip_iff (entries : List ConfigEntry) :
    ((iniParseFileCore record (writeSettings entries) []).user = entries ∧
        (iniParseFileCore record (writeSettings entries) []).error = 0) ↔
      ∀ e ∈ entries, Readable e := by
  refine ⟨?_, ?_⟩
  · intro h e he
    obtain ⟨huser, -⟩ := h
    rw [← huser] at he
    exact delivered_readable _ e he
  · intro h
    have hreadable : ∀ p ∈ entries.map fun e => (({} : Layout), e), Readable p.2 := by
      intro p hp
      obtain ⟨e, he, rfl⟩ := List.mem_map.1 hp
      exact h e he
    have hcomment : ∀ p ∈ entries.map fun e => (({} : Layout), e),
        p.2.value = [] → p.1.comment = none := by
      intro p hp
      obtain ⟨e, -, rfl⟩ := List.mem_map.1 hp
      exact fun _ => rfl
    obtain ⟨herror, huser⟩ := iniParseFileCore_writeLines (fun es e => es ++ [e]) [] hreadable
      hcomment (fits_writeSettings h)
    have hentries : (entries.map fun e => (({} : Layout), e)).map Prod.snd = entries := by
      rw [List.map_map]
      exact List.map_id entries
    rw [hentries, foldl_record, List.nil_append] at huser
    exact ⟨huser, herror⟩

/-- A regular file that can be read. -/
def plainFile (contents : List Char) : CfgFile := ⟨true, .ok contents, 0⟩

theorem processConfig_plainFile (handler : CfgParseHandler σ)
    (contents dirpath cfgfilename : List Char) (user : σ) :
    processConfig (fun _ => plainFile contents) dirpath cfgfilename handler user =
      ((iniParseFileCore handler contents user).user,
        if (iniParseFileCore handler contents user).error ≠ 0 then
          .error (configFileLoadErr (pathConcat dirpath cfgfilename) ++
            configFileParseErr (iniParseFileCore handler contents user).error
              "ini_parse".toList 193)
        else .ok true) := by
  by_cases herror : (iniParseFileCore handler contents user).error ≠ 0
  · simp [processConfig, iniParse, plainFile, herror]
  · simp [processConfig, iniParse, plainFile, not_not.1 herror]

theorem processConfig_ok_iff {handler : CfgParseHandler σ}
    {contents dirpath cfgfilename : List Char} {user u : σ} :
    processConfig (fun _ => plainFile contents) dirpath cfgfilename handler user = (u, .ok true) ↔
      (iniParseFileCore handler contents user).user = u ∧
        (iniParseFileCore handler contents user).error = 0 := by
  rw [processConfig_plainFile, Prod.mk.injEq]
  by_cases herror : (iniParseFileCore handler contents user).error = 0 <;> simp [herror]

theorem processConfig_error_iff {handler : CfgParseHandler σ}
    {contents dirpath cfgfilename text : List Char} {user u : σ} :
    processConfig (fun _ => plainFile contents) dirpath cfgfilename handler user =
        (u, .error text) ↔
      (iniParseFileCore handler contents user).user = u ∧
        (iniParseFileCore handler contents user).error ≠ 0 ∧
        text = configFileLoadErr (pathConcat dirpath cfgfilename) ++
          configFileParseErr (iniParseFileCore handler contents user).error
            "ini_parse".toList 193 := by
  rw [processConfig_plainFile, Prod.mk.injEq]
  by_cases herror : (iniParseFileCore handler contents user).error = 0
  · simp [herror]
  · simp [herror, eq_comm]

/-- **The layout is irrelevant.** -/
theorem layout_irrelevant (handle : σ → ConfigEntry → σ) (user : σ)
    (dirpath cfgfilename : List Char) (below : List RemarkLine)
    {settings : List (Layout × ConfigEntry)}
    (hreadable : ∀ p ∈ settings, Readable p.2)
    (hcomment : ∀ p ∈ settings, p.2.value = [] → p.1.comment = none)
    (hfits : ∀ line ∈ writeLines below none settings, line.length < iniMaxLine) :
    processConfig (fun _ => plainFile (unlines (writeLines below none settings))) dirpath
        cfgfilename (accepting handle) user =
      ((settings.map Prod.snd).foldl handle user, .ok true) := by
  obtain ⟨herror, huser⟩ :=
    iniParseFileCore_writeLines handle user hreadable hcomment hfits
  rw [processConfig_plainFile, huser, if_neg (by simp [herror])]

/-- A line for the number of children, with comments above and below its header, indented, and
with a comment behind a tab. -/
def maxCountLayout : Layout where
  above := [⟨{}, some (false, { text := "#".toList, isText := ⟨by decide, by decide⟩ })⟩]
  belowHeader := [⟨{}, some (true, {})⟩]
  indent := ⟨['\t'], List.forall_mem_singleton.2 ⟨rfl, by decide⟩⟩
  beforeEquals := ⟨[' '], List.forall_mem_singleton.2 ⟨rfl, by decide⟩⟩
  afterEquals := ⟨[' '], List.forall_mem_singleton.2 ⟨rfl, by decide⟩⟩
  comment := some ⟨⟨" most".toList, ⟨by decide, by decide⟩⟩, '\t', ⟨rfl, by decide⟩⟩

def maxCountThirty : ConfigEntry :=
  ⟨"ChildProcessSettings".toList, "ChildProcessMaxCount".toList, "30".toList⟩

theorem readable_maxCountThirty : Readable maxCountThirty where
  sectionName := ⟨⟨by decide, by decide⟩, by decide, by decide, by decide⟩
  name := ⟨⟨by decide, by decide⟩, ⟨by rintro c ⟨⟩; rfl, by rintro c ⟨⟩; rfl⟩,
    by rintro c ⟨⟩; decide, by decide, by decide⟩
  value := ⟨⟨by decide, by decide⟩, ⟨by rintro c ⟨⟩; rfl, by rintro c ⟨⟩; rfl⟩, by decide⟩
  fits := by decide

theorem layout_irrelevant_maxCount :
    processConfig
        (fun _ => plainFile
          "##\n[ChildProcessSettings]\n;\n\tChildProcessMaxCount = 30\t; most\n\n".toList)
        [] [] (accepting SessionState.handleEntry) {} =
      (SessionState.handleEntry {} maxCountThirty, .ok true) := by
  have hfile : "##\n[ChildProcessSettings]\n;\n\tChildProcessMaxCount = 30\t; most\n\n".toList =
      unlines (writeLines [{}] none [(maxCountLayout, maxCountThirty)]) := by decide +kernel
  rw [hfile]
  have hreadable : ∀ p ∈ [(maxCountLayout, maxCountThirty)], Readable p.2 := by
    intro p hp
    rw [List.mem_singleton.1 hp]
    exact readable_maxCountThirty
  have hcomment : ∀ p ∈ [(maxCountLayout, maxCountThirty)],
      p.2.value = [] → p.1.comment = none := by
    intro p hp hnil
    rw [List.mem_singleton.1 hp] at hnil
    cases hnil
  exact layout_irrelevant SessionState.handleEntry {} [] [] [{}] hreadable hcomment
    (by decide +kernel)

/-! ## Errors -/

section Errors

variable {handler : CfgParseHandler σ} {handle : σ → ConfigEntry → σ} {s : IniState σ}
  {lines : List (List Char)}

theorem fgetsAll_unlines
    (hlines : ∀ line ∈ lines, '\n' ∉ line ∧ line.length + 1 < iniMaxLine) :
    fgetsAll '\n' (iniMaxLine - 1) (unlines lines) = lines.map (· ++ ['\n']) := by
  induction lines with
  | nil => rfl
  | cons line lines ih =>
    obtain ⟨hnl, hfits⟩ := hlines line List.mem_cons_self
    have hcons : unlines (line :: lines) = line ++ '\n' :: unlines lines := by simp [unlines]
    rw [hcons, fgetsAll_line hnl (by omega), ih fun l hl => hlines l (List.mem_cons_of_mem line hl)]
    rfl

theorem iniParseLines_newlines (lines : List (List Char)) (s : IniState σ) :
    iniParseLines handler (lines.map (· ++ ['\n'])) s = iniParseLines handler lines s := by
  induction lines generalizing s with
  | nil => rfl
  | cons line lines ih =>
    rw [List.map_cons, iniParseLines, iniParseLines, next_newline]
    by_cases herror : (s.next handler line).error ≠ 0
    · rw [if_pos herror, if_pos herror]
    · rw [if_neg herror, if_neg herror, ih]

theorem iniParseFileCore_unlines (user : σ)
    (hlines : ∀ line ∈ lines, '\n' ∉ line ∧ line.length + 1 < iniMaxLine) :
    iniParseFileCore handler (unlines lines) user = iniParseLines handler lines { user } := by
  rw [iniParseFileCore, fgetsAll_unlines hlines, iniParseLines_newlines]

/-- An accepting handler leaves the loop with the errors of the file alone. -/
theorem error_next_iff (line : List Char) (herror : s.error = 0) :
    (s.next (accepting handle) line).error ≠ 0 ↔
      iniLine (iniStart (s.lineno + 1) (cstr line)) = .malformed := by
  rw [IniState.next]
  cases hline : iniLine (iniStart (s.lineno + 1) (cstr line)) with
  | blank | header | setting => simp [IniState.accept, accepting, herror]
  | malformed => simp [IniState.accept]

theorem error_head {line : List Char} (h : (iniParseLines handler (line :: lines) s).error = 0) :
    (s.next handler line).error = 0 := by
  by_contra herror
  rw [iniParseLines, if_pos herror] at h
  exact herror h

theorem iniParseLines_append {good : List (List Char)}
    (h : (iniParseLines handler good s).error = 0) (rest : List (List Char)) :
    iniParseLines handler (good ++ rest) s =
      iniParseLines handler rest (iniParseLines handler good s) := by
  induction good generalizing s with
  | nil => rfl
  | cons line good ih =>
    have hhead := error_head h
    rw [iniParseLines_cons hhead] at h ⊢
    rw [List.cons_append, iniParseLines_cons hhead, ih h]

theorem lineno_iniParseLines (h : (iniParseLines handler lines s).error = 0) :
    (iniParseLines handler lines s).lineno = s.lineno + lines.length := by
  induction lines generalizing s with
  | nil => rfl
  | cons line lines ih =>
    have hhead := error_head h
    rw [iniParseLines_cons hhead] at h ⊢
    rw [ih h, lineno_next, List.length_cons]
    omega

/-- Where the loop stops. -/
theorem exists_of_error (h : (iniParseLines handler lines s).error ≠ 0) (hs : s.error = 0) :
    ∃ good bad rest, lines = good ++ bad :: rest ∧ (iniParseLines handler good s).error = 0 ∧
      ((iniParseLines handler good s).next handler bad).error ≠ 0 := by
  induction lines generalizing s with
  | nil => exact absurd hs h
  | cons line lines ih =>
    by_cases hhead : (s.next handler line).error = 0
    · rw [iniParseLines_cons hhead] at h
      obtain ⟨good, bad, rest, rfl, hgood, hbad⟩ := ih h hhead
      refine ⟨line :: good, bad, rest, rfl, ?_, ?_⟩
      · rwa [iniParseLines_cons hhead]
      · rwa [iniParseLines_cons hhead]
    · exact ⟨[], line, lines, rfl, hs, hhead⟩

/-- A malformed line ends the loop, whatever follows. -/
theorem iniParseLines_malformed {good : List (List Char)} {bad : List Char}
    (hgood : (iniParseLines handler good s).error = 0)
    (hbad : iniLine (iniStart (s.lineno + good.length + 1) (cstr bad)) = .malformed)
    (rest : List (List Char)) :
    (iniParseLines handler (good ++ bad :: rest) s).user = (iniParseLines handler good s).user ∧
      (iniParseLines handler (good ++ bad :: rest) s).error = s.lineno + good.length + 1 := by
  have hnext : (iniParseLines handler good s).next handler bad =
      (iniParseLines handler good s).accept handler .malformed := by
    rw [IniState.next, lineno_iniParseLines hgood, hbad]
  have hstop : ((iniParseLines handler good s).accept handler .malformed).error ≠ 0 :=
    Nat.succ_ne_zero _
  rw [iniParseLines_append hgood, iniParseLines, hnext, if_pos hstop, ← lineno_iniParseLines hgood]
  exact ⟨rfl, rfl⟩

end Errors

/-- **Errors.** -/
theorem config_error_iff (handle : σ → ConfigEntry → σ) (user u : σ)
    (dirpath cfgfilename text : List Char) {lines : List (List Char)}
    (hlines : ∀ line ∈ lines, '\n' ∉ line ∧ line.length + 1 < iniMaxLine) :
    processConfig (fun _ => plainFile (unlines lines)) dirpath cfgfilename (accepting handle) user =
        (u, .error text) ↔
      ∃ good bad rest, lines = good ++ bad :: rest ∧
        processConfig (fun _ => plainFile (unlines good)) dirpath cfgfilename (accepting handle)
          user = (u, .ok true) ∧
        iniLine (iniStart (good.length + 1) (cstr bad)) = .malformed ∧
        text = configFileLoadErr (pathConcat dirpath cfgfilename) ++
          configFileParseErr (good.length + 1 : ℕ) "ini_parse".toList 193 := by
  have hfront {good : List (List Char)} {bad : List Char} {rest : List (List Char)}
      (hsplit : lines = good ++ bad :: rest) :
      ∀ line ∈ good, '\n' ∉ line ∧ line.length + 1 < iniMaxLine :=
    fun line hline => hlines line (hsplit ▸ List.mem_append_left _ hline)
  rw [processConfig_error_iff, iniParseFileCore_unlines user hlines]
  refine ⟨?_, ?_⟩
  · intro h
    obtain ⟨huser, herror, rfl⟩ := h
    obtain ⟨good, bad, rest, hsplit, hgood, hbad⟩ := exists_of_error herror rfl
    have hmalformed := (error_next_iff bad hgood).1 hbad
    rw [lineno_iniParseLines hgood, Nat.zero_add] at hmalformed
    obtain ⟨hstop, hlineno⟩ := iniParseLines_malformed hgood (by rwa [Nat.zero_add]) rest
    rw [← hsplit] at hstop hlineno
    refine ⟨good, bad, rest, hsplit, ?_, hmalformed, ?_⟩
    · rw [processConfig_ok_iff, iniParseFileCore_unlines user (hfront hsplit)]
      exact ⟨hstop.symm.trans huser, hgood⟩
    · rw [hlineno, Nat.zero_add]
  · intro h
    obtain ⟨good, bad, rest, hsplit, hok, hmalformed, rfl⟩ := h
    rw [processConfig_ok_iff, iniParseFileCore_unlines user (hfront hsplit)] at hok
    obtain ⟨huser, hgood⟩ := hok
    obtain ⟨hstop, hlineno⟩ := iniParseLines_malformed hgood (by rwa [Nat.zero_add]) rest
    rw [← hsplit, Nat.zero_add] at hlineno
    rw [← hsplit] at hstop
    refine ⟨hstop.trans huser, ?_, ?_⟩
    · rw [hlineno]
      exact Nat.succ_ne_zero _
    · rw [hlineno]

/-- The second line has neither `=` nor `:`. -/
theorem config_error_iff_second :
    processConfig (fun _ => plainFile "[JvmSettings]\n-server\n".toList) "/opt".toList
        "c.ini".toList (accepting SessionState.handleEntry) {} =
      ({}, .error ("can't load \"/opt/c.ini\"\n" ++
        "config file parsing error 2 in ini_parse() at line 193\n").toList) := by
  have hlines : ∀ line ∈ ["[JvmSettings]".toList, "-server".toList],
      '\n' ∉ line ∧ line.length + 1 < iniMaxLine := by decide +kernel
  have herror := config_error_iff SessionState.handleEntry {} {} "/opt".toList "c.ini".toList
    ("can't load \"/opt/c.ini\"\n" ++
      "config file parsing error 2 in ini_parse() at line 193\n").toList hlines
  exact herror.2 ⟨["[JvmSettings]".toList], "-server".toList, [], rfl, rfl, by decide +kernel,
    by decide +kernel⟩

end Spartan

import Mathlib.Data.List.Chain
import SpartanLauncher.EntryPoints
import SpartanLauncher.Lib.Lines

/-!
# The parser of configuration files

`ini_parse` reads a file through a buffer of `INI_MAX_LINE` characters, tells headers of sections,
settings, comments and other lines apart, and calls a handler for each setting.

* `iniLine`: what one line is, after white space was taken off both ends.
* `IniState.next`, `iniParseLines`, `iniParseFileCore`: the loop, which stops at the first error.
* `Readable`: the settings that the parser can deliver.

Whatever the parser delivers, from any file, is readable (`delivered_readable`): that follows from
what `find_char_or_comment` leaves in front of the place it finds. `iniLine_header`,
`iniLine_setting` and `iniValue_commented` are the converse for one line.
-/

namespace Spartan

open CString Lines

/-! ## Lines -/

/-- `INI_MAX_LINE`. -/
def iniMaxLine : ℕ := 512

/-- `MAX_SECTION`. -/
def maxSection : ℕ := 50

/-- Strip whitespace chars off end of given string. -/
def rstrip (s : List Char) : List Char := s.rdropWhile isSpace

/-- From the first non-whitespace char in given string. -/
def lskip (s : List Char) : List Char := s.dropWhile isSpace

/-- The string in front of the first char `c` or `;` comment, and the string from there. `;` must be
prefixed by a whitespace character to register as a comment. -/
def findCharOrComment (c : Char) : (wasWhitespace : Bool) → List Char → List Char × List Char
  | _, [] => ([], [])
  | wasWhitespace, x :: xs =>
    if x = c ∨ (wasWhitespace = true ∧ x = ';') then ([], x :: xs)
    else
      let (front, rest) := findCharOrComment c (isSpace x) xs
      (x :: front, rest)

/-- Version of `strncpy` that ensures that the destination is null-terminated, which the parser's
buffers are at their last character. -/
def strncpy0 (destBufSize : ℕ) (src : List Char) (size : ℕ) : List Char :=
  cstr (strncpy src (if size ≥ destBufSize then destBufSize - 1 else size))

inductive IniLine where
  /-- Nothing, or a comment. -/
  | blank
  /-- A "[section]" line. -/
  | header (sectionName : List Char)
  /-- A name[=:]value pair. -/
  | setting (name value : List Char)
  /-- No `]` found on section line, or no `=` or `:` on another. -/
  | malformed
  deriving DecidableEq

/-- The value behind the `=` or `:`. -/
def iniValue (s : List Char) : List Char := rstrip (findCharOrComment '\x00' false (lskip s)).1

/-- The name with what stands in front of the `=`, or else the `:`, and the line from there. -/
def findDelim (start : List Char) : List Char × List Char :=
  let atEquals := findCharOrComment '=' false start
  if atEquals.2.head? = some '=' then atEquals else findCharOrComment ':' false start

/-- The line from `start`: the branches of the loop. -/
def iniLine (start : List Char) : IniLine :=
  match start with
  | [] => .blank
  | c :: s =>
    -- per Python ConfigParser, allow `#` comments at start of line
    if c = ';' ∨ c = '#' then .blank
    else if c = '[' then
      match findCharOrComment ']' false s with
      | (sectionName, ']' :: _) => .header (strncpy0 maxSection sectionName maxSection)
      | _ => .malformed
    else
      match findDelim start with
      | (_, []) => .malformed
      | (name, d :: value) =>
        if d = '=' ∨ d = ':' then .setting (rstrip name) (iniValue value) else .malformed

/-! ## The loop -/

/-- A handler with the state it works on; it returns nonzero on success. -/
abbrev CfgParseHandler (σ : Type*) := σ → ConfigEntry → σ × Bool

structure IniState (σ : Type*) where
  sectionName : List Char := []
  lineno : ℕ := 0
  error : ℕ := 0
  user : σ

variable {σ : Type*}

/-- The UTF-8 BOM. -/
def bom : List Char := ['\xef', '\xbb', '\xbf']

/-- The string that the branches of the loop look at. -/
def iniStart (lineno : ℕ) (line : List Char) : List Char :=
  let start := if lineno = 1 ∧ bom <+: line then line.drop 3 else line
  lskip (rstrip start)

/-- The branches of the loop. -/
def IniState.accept (handler : CfgParseHandler σ) (s : IniState σ) (line : IniLine) : IniState σ :=
  let lineno := s.lineno + 1
  match line with
  | .blank => { s with lineno }
  | .header sectionName => { s with lineno, sectionName }
  | .setting name value =>
    let (user, success) := handler s.user ⟨s.sectionName, name, value⟩
    { s with lineno, user, error := if success then s.error else lineno }
  | .malformed => { s with lineno, error := lineno }

/-- One iteration of the loop on the string in the buffer. -/
def IniState.next (handler : CfgParseHandler σ) (s : IniState σ) (line : List Char) :
    IniState σ :=
  s.accept handler (iniLine (iniStart (s.lineno + 1) (cstr line)))

/-- `INI_STOP_ON_FIRST_ERROR`. -/
def iniParseLines (handler : CfgParseHandler σ) : List (List Char) → IniState σ → IniState σ
  | [], s => s
  | line :: lines, s =>
    let s := s.next handler line
    if s.error ≠ 0 then s else iniParseLines handler lines s

/-- `ini_parse_file_core`. -/
def iniParseFileCore (handler : CfgParseHandler σ) (file : List Char) (user : σ) : IniState σ :=
  iniParseLines handler (fgetsAll '\n' (iniMaxLine - 1) file) { user }

/-! ## Finding a character or a comment -/

/-- No `;` registers as a comment. -/
def NoComment (s : List Char) : Prop := s.IsChain fun w c => ¬(isSpace w = true ∧ c = ';')

instance (s : List Char) : Decidable (NoComment s) :=
  inferInstanceAs (Decidable (s.IsChain _))

section Find

variable {c p : Char} {s t : List Char}

theorem noComment_cons : NoComment (p :: s) ↔
    (∀ x ∈ s.head?, ¬(isSpace p = true ∧ x = ';')) ∧ NoComment s := List.isChain_cons

theorem noComment_cons_of_not_isSpace (hp : isSpace p = false) :
    NoComment (p :: s) ↔ NoComment s := by
  simp [noComment_cons, hp]

theorem noComment_of_prefix (h : NoComment t) (hs : s <+: t) : NoComment s :=
  List.IsChain.prefix h hs

theorem noComment_of_isSpace (h : ∀ x ∈ s, isSpace x = true) : NoComment s := by
  induction s with
  | nil => exact List.IsChain.nil
  | cons x s ih =>
    refine noComment_cons.2 ⟨?_, ih fun y hy => h y (List.mem_cons_of_mem x hy)⟩
    intro y hy h
    obtain ⟨-, rfl⟩ := h
    have hspace := h ';' (List.mem_cons_of_mem x (List.mem_of_mem_head? hy))
    exact absurd hspace (by decide)

theorem findCharOrComment_append (c : Char) (w : Bool) (s : List Char) :
    (findCharOrComment c w s).1 ++ (findCharOrComment c w s).2 = s := by
  induction s generalizing w with
  | nil => rfl
  | cons x s ih =>
    rw [findCharOrComment]
    by_cases hx : x = c ∨ (w = true ∧ x = ';')
    · rw [if_pos hx]
      rfl
    · rw [if_neg hx]
      exact congrArg (x :: ·) (ih (isSpace x))

theorem prefix_findCharOrComment (c : Char) (w : Bool) (s : List Char) :
    (findCharOrComment c w s).1 <+: s := ⟨_, findCharOrComment_append c w s⟩

theorem notMem_findCharOrComment (c : Char) (w : Bool) (s : List Char) :
    c ∉ (findCharOrComment c w s).1 := by
  induction s generalizing w with
  | nil => simp [findCharOrComment]
  | cons x s ih =>
    rw [findCharOrComment]
    by_cases hx : x = c ∨ (w = true ∧ x = ';')
    · simp [if_pos hx]
    · rw [if_neg hx, List.mem_cons, not_or]
      exact ⟨fun h => hx (.inl h.symm), ih (isSpace x)⟩

/-- No comment starts in front of the place that was found. -/
theorem noComment_findCharOrComment (c p : Char) (s : List Char) :
    NoComment (p :: (findCharOrComment c (isSpace p) s).1) := by
  induction s generalizing p with
  | nil => exact List.IsChain.singleton p
  | cons x s ih =>
    rw [findCharOrComment]
    by_cases hx : x = c ∨ (isSpace p = true ∧ x = ';')
    · rw [if_pos hx]
      exact List.IsChain.singleton p
    · rw [if_neg hx]
      refine noComment_cons.2 ⟨?_, ih x⟩
      intro y hy h
      obtain ⟨hp, rfl⟩ := h
      exact hx (.inr ⟨hp, Option.some.inj hy⟩)

/-- The search goes on where a text without the character and without a comment ends. -/
theorem findCharOrComment_of_front (hs : NoComment (p :: s)) (hc : c ∉ s) :
    findCharOrComment c (isSpace p) (s ++ t) =
      (s ++ (findCharOrComment c (isSpace ((p :: s).getLast (List.cons_ne_nil p s))) t).1,
        (findCharOrComment c (isSpace ((p :: s).getLast (List.cons_ne_nil p s))) t).2) := by
  induction s generalizing p with
  | nil => rfl
  | cons x s ih =>
    rw [List.mem_cons, not_or] at hc
    obtain ⟨hhead, htail⟩ := noComment_cons.1 hs
    have hx : ¬(x = c ∨ (isSpace p = true ∧ x = ';')) := by
      rintro (rfl | hx)
      · exact hc.1 rfl
      · exact hhead x rfl hx
    rw [List.cons_append, findCharOrComment, if_neg hx, ih htail hc.2,
      List.getLast_cons (List.cons_ne_nil x s)]
    rfl

/-- The search for a character that is there, with no comment in front of it. -/
theorem findCharOrComment_found (hs : NoComment s) (hc : c ∉ s) :
    findCharOrComment c false (s ++ c :: t) = (s, c :: t) := by
  have hfront := findCharOrComment_of_front (p := 'a') (t := c :: t)
    ((noComment_cons_of_not_isSpace rfl).2 hs) hc
  rw [show isSpace 'a' = false from rfl] at hfront
  rw [hfront, findCharOrComment, if_pos (.inl rfl), List.append_nil]

theorem findCharOrComment_end (hs : NoComment s) (hc : c ∉ s) :
    findCharOrComment c false s = (s, []) := by
  have hfront := findCharOrComment_of_front (p := 'a') (t := [])
    ((noComment_cons_of_not_isSpace rfl).2 hs) hc
  rw [show isSpace 'a' = false from rfl, List.append_nil] at hfront
  rw [hfront, findCharOrComment, List.append_nil]

theorem findCharOrComment_comment (hs : NoComment (s ++ [p])) (hp : isSpace p = true)
    (hc : c ∉ s ++ [p]) :
    findCharOrComment c false (s ++ p :: ';' :: t) = (s ++ [p], ';' :: t) := by
  have hfront := findCharOrComment_of_front (p := 'a') (t := ';' :: t)
    ((noComment_cons_of_not_isSpace rfl).2 hs) hc
  rw [show isSpace 'a' = false from rfl, List.append_assoc] at hfront
  simpa [findCharOrComment, hp] using hfront

/-- When the search for one character ended at a comment, the search for another one does not get
past it. -/
theorem notMem_of_stopped {c d : Char} (h : (findCharOrComment c false s).2.head? ≠ some c) :
    c ∉ (findCharOrComment d false s).1 := by
  have hnone := noComment_findCharOrComment d 'a' s
  rw [show isSpace 'a' = false from rfl, noComment_cons_of_not_isSpace rfl] at hnone
  intro hmem
  have happ := findCharOrComment_append c false s
  obtain ⟨front, behind, hsplit, hfirst⟩ := List.eq_append_cons_of_mem hmem
  obtain ⟨t, ht⟩ := prefix_findCharOrComment d false s
  rw [hsplit, List.append_assoc] at ht
  have hfront : NoComment front := noComment_of_prefix hnone ⟨_, hsplit.symm⟩
  apply h
  rw [← ht, List.cons_append, findCharOrComment_found hfront hfirst]
  rfl

end Find

/-! ## What the parser can deliver -/

/-- The text of one line of a file, as a C string. -/
structure IsText (s : List Char) : Prop where
  newline : '\n' ∉ s
  nul : '\x00' ∉ s

structure IsSectionName (s : List Char) : Prop extends IsText s where
  short : s.length < maxSection
  bracket : ']' ∉ s
  comment : NoComment s

structure IsSettingName (s : List Char) : Prop extends IsText s where
  trimmed : Trimmed isSpace s
  first : ∀ c ∈ s.head?, c ≠ ';' ∧ c ≠ '#' ∧ c ≠ '['
  equals : '=' ∉ s
  comment : NoComment s

structure IsSettingValue (s : List Char) : Prop extends IsText s where
  trimmed : Trimmed isSpace s
  comment : NoComment s

/-- The settings that the parser can deliver. -/
structure Readable (e : ConfigEntry) : Prop where
  sectionName : IsSectionName e.sectionName
  name : IsSettingName e.name
  value : IsSettingValue e.value
  fits : e.name.length + 1 + e.value.length < iniMaxLine

section Lines

variable {s start name value sectionName : List Char}

theorem IsText.of_sublist {t : List Char} (ht : IsText t) (h : s.Sublist t) : IsText s where
  newline hmem := ht.newline (h.subset hmem)
  nul hmem := ht.nul (h.subset hmem)

/-- A newline can only be the last character of a buffer, which is taken off. -/
theorem newline_notMem_rstrip {t : List Char} (hnl : '\n' ∉ t.dropLast) (hs : s <:+: t) :
    '\n' ∉ rstrip s := by
  obtain ⟨u, v, rfl⟩ := hs
  intro hmem
  obtain ⟨front, behind, hsplit, -⟩ := List.eq_append_cons_of_mem hmem
  obtain ⟨w, hw⟩ : rstrip s <+: s := List.rdropWhile_prefix _ _
  cases behind with
  | nil =>
    have hlast : '\n' ∈ (rstrip s).getLast? := by
      rw [hsplit, List.getLast?_concat]
      rfl
    exact absurd (last_rdropWhile _ hlast) (by decide)
  | cons c cs =>
    apply hnl
    have happend : u ++ s ++ v = u ++ front ++ '\n' :: c :: (cs ++ w ++ v) := by
      rw [← hw, hsplit]
      simp
    rw [happend, List.dropLast_append_of_ne_nil (by simp)]
    simp

theorem isSectionName_of_header (htext : IsText start)
    (h : iniLine start = .header sectionName) : IsSectionName sectionName := by
  cases start with
  | nil => cases h
  | cons c s =>
    simp only [iniLine] at h
    by_cases hremark : c = ';' ∨ c = '#'
    · rw [if_pos hremark] at h
      cases h
    rw [if_neg hremark] at h
    by_cases hopen : c = '['
    · rw [if_pos hopen] at h
      have hsub := (prefix_findCharOrComment ']' false s).sublist
      have hnone := noComment_findCharOrComment ']' 'a' s
      rw [show isSpace 'a' = false from rfl, noComment_cons_of_not_isSpace rfl] at hnone
      have hbracket := notMem_findCharOrComment ']' false s
      have hfront : IsText (findCharOrComment ']' false s).1 :=
        htext.of_sublist (hsub.trans (List.sublist_cons_self c s))
      split at h
      · next found rest hfind =>
        rw [hfind] at hnone hbracket hfront
        obtain rfl := IniLine.header.inj h
        rw [strncpy0, cstr_strncpy hfront.nul]
        have htake := List.take_prefix (if maxSection ≥ maxSection then maxSection - 1
          else maxSection) found
        exact {
          toIsText := hfront.of_sublist htake.sublist
          short := lt_of_le_of_lt (List.length_take_le _ _) (by decide)
          bracket := fun hmem => hbracket (htake.subset hmem)
          comment := noComment_of_prefix hnone htake }
      · cases h
    · rw [if_neg hopen] at h
      split at h
      · cases h
      · split at h <;> cases h

/-- The line of a setting. -/
theorem setting_cases (h : iniLine start = .setting name value) :
    (∀ c ∈ start.head?, c ≠ ';' ∧ c ≠ '#' ∧ c ≠ '[') ∧
      ∃ front d rest, findDelim start = (front, d :: rest) ∧ name = rstrip front ∧
        value = iniValue rest := by
  cases start with
  | nil => cases h
  | cons c s =>
    simp only [iniLine] at h
    by_cases hremark : c = ';' ∨ c = '#'
    · rw [if_pos hremark] at h
      cases h
    rw [if_neg hremark] at h
    by_cases hopen : c = '['
    · rw [if_pos hopen] at h
      split at h <;> cases h
    rw [if_neg hopen] at h
    rw [not_or] at hremark
    refine ⟨?_, ?_⟩
    · intro c' h
      cases h
      exact ⟨hremark.1, hremark.2, hopen⟩
    · split at h
      · cases h
      · next front d rest hfind =>
        split at h
        · cases h
          exact ⟨front, d, rest, hfind, rfl, rfl⟩
        · cases h

theorem findDelim_spec (start : List Char) :
    (findDelim start).1 ++ (findDelim start).2 = start ∧ '=' ∉ (findDelim start).1 ∧
      NoComment (findDelim start).1 := by
  have hnone (d : Char) : NoComment (findCharOrComment d false start).1 := by
    have hcons := noComment_findCharOrComment d 'a' start
    rwa [show isSpace 'a' = false from rfl, noComment_cons_of_not_isSpace rfl] at hcons
  rw [findDelim]
  by_cases hequals : (findCharOrComment '=' false start).2.head? = some '='
  · rw [if_pos hequals]
    exact ⟨findCharOrComment_append _ _ _, notMem_findCharOrComment _ _ _, hnone '='⟩
  · rw [if_neg hequals]
    exact ⟨findCharOrComment_append _ _ _, notMem_of_stopped hequals, hnone ':'⟩

theorem isSettingValue_iniValue (htext : IsText s) (hlast : ∀ c ∈ s.getLast?, isSpace c = false) :
    IsSettingValue (iniValue s) := by
  have htrimmed : Trimmed isSpace (lskip s) :=
    ⟨head_dropWhile, fun c hc => hlast c (last_of_suffix (List.dropWhile_suffix _) hc)⟩
  have hfront := prefix_findCharOrComment '\x00' false (lskip s)
  have hnone := noComment_findCharOrComment '\x00' 'a' (lskip s)
  rw [show isSpace 'a' = false from rfl, noComment_cons_of_not_isSpace rfl] at hnone
  have hvalue : iniValue s <+: (findCharOrComment '\x00' false (lskip s)).1 :=
    List.rdropWhile_prefix _ _
  have hsublist : (iniValue s).Sublist s :=
    (hvalue.trans hfront).sublist.trans (List.dropWhile_suffix _).sublist
  exact {
    toIsText := htext.of_sublist hsublist
    trimmed := htrimmed.rdropWhile_of_prefix hfront
    comment := noComment_of_prefix hnone hvalue }

/-- **Soundness.** A setting that is found on a line is readable, and fits. -/
theorem readable_of_setting (htext : IsText start) (htrimmed : Trimmed isSpace start)
    (h : iniLine start = .setting name value) :
    IsSettingName name ∧ IsSettingValue value ∧ name.length + 1 + value.length ≤ start.length := by
  obtain ⟨hfirst, front, d, rest, hfind, rfl, rfl⟩ := setting_cases h
  obtain ⟨happend, hequals, hnone⟩ := findDelim_spec start
  rw [hfind] at happend hequals hnone
  dsimp only at happend hequals hnone
  have hfront : front <+: start := ⟨_, happend⟩
  have hname : rstrip front <+: front := List.rdropWhile_prefix _ _
  have hrest : rest <:+ start := ⟨front ++ [d], by rw [← happend]; simp⟩
  have hvalue : (iniValue rest).length ≤ rest.length :=
    ((List.rdropWhile_prefix _ _).trans (prefix_findCharOrComment _ _ _)).length_le.trans
      (List.dropWhile_suffix _).length_le
  refine ⟨?_, ?_, ?_⟩
  · exact {
      toIsText := htext.of_sublist (hname.trans hfront).sublist
      trimmed := htrimmed.rdropWhile_of_prefix hfront
      first := fun c hc => hfirst c (mem_head_mono (hname.trans hfront) hc)
      equals := fun hmem => hequals (hname.subset hmem)
      comment := noComment_of_prefix hnone hname }
  · apply isSettingValue_iniValue (htext.of_sublist hrest.sublist)
    exact fun c hc => htrimmed.last c (last_of_suffix hrest hc)
  · have hlength := congrArg List.length happend
    rw [List.length_append, List.length_cons] at hlength
    have hle := hname.length_le
    omega

/-! ## What is read back -/

theorem NoComment.append {t : List Char} (hs : NoComment s) (ht : NoComment t)
    (hhead : ∀ x ∈ t.head?, x ≠ ';') : NoComment (s ++ t) :=
  List.IsChain.append hs ht fun _ _ y hy h => hhead y hy h.2

theorem head_ne_semicolon {bl : List Char} (hbl : ∀ c ∈ bl, isSpace c = true) :
    ∀ x ∈ bl.head?, x ≠ ';' := by
  intro x hx h
  subst h
  exact absurd (hbl ';' (List.mem_of_mem_head? hx)) (by decide)

theorem notMem_of_isSpace {bl : List Char} (hbl : ∀ c ∈ bl, isSpace c = true) {c : Char}
    (hc : isSpace c = false) : c ∉ bl := by
  intro hmem
  rw [hbl c hmem] at hc
  cases hc

theorem iniLine_header (h : IsSectionName sectionName) (behind : List Char) :
    iniLine ('[' :: (sectionName ++ ']' :: behind)) = .header sectionName := by
  have hfound := findCharOrComment_found (t := behind) h.comment h.bracket
  have hcopy : strncpy0 maxSection sectionName maxSection = sectionName := by
    rw [strncpy0, cstr_strncpy h.nul]
    exact List.take_of_length_le (Nat.le_pred_of_lt h.short)
  rw [iniLine, if_neg (by decide), if_pos rfl, hfound]
  simp only [hcopy]

theorem iniLine_setting (h : IsSettingName name) {bl : List Char}
    (hbl : ∀ c ∈ bl, isSpace c = true) (hempty : name = [] → bl = []) (behind : List Char) :
    iniLine (name ++ (bl ++ '=' :: behind)) = .setting name (iniValue behind) := by
  have hnone : NoComment (name ++ bl) :=
    h.comment.append (noComment_of_isSpace hbl) (head_ne_semicolon hbl)
  have hequals : '=' ∉ name ++ bl := by
    rw [List.mem_append, not_or]
    exact ⟨h.equals, notMem_of_isSpace hbl rfl⟩
  have hdelim : findDelim (name ++ (bl ++ '=' :: behind)) = (name ++ bl, '=' :: behind) := by
    have hfound := findCharOrComment_found (t := behind) hnone hequals
    rw [List.append_assoc] at hfound
    rw [findDelim, hfound, List.head?_cons, if_pos rfl]
  have hname : rstrip (name ++ bl) = name := rdropWhile_padded h.trimmed.last hbl
  have hfirst : ∃ c s, name ++ (bl ++ '=' :: behind) = c :: s ∧ c ≠ ';' ∧ c ≠ '#' ∧ c ≠ '[' := by
    cases name with
    | nil =>
      rw [hempty rfl]
      exact ⟨'=', behind, rfl, by decide, by decide, by decide⟩
    | cons c s => exact ⟨c, s ++ (bl ++ '=' :: behind), rfl, h.first c rfl⟩
  obtain ⟨c, s, hcons, hsemi, hhash, hopen⟩ := hfirst
  rw [hcons] at hdelim ⊢
  rw [iniLine, if_neg (by simp [hsemi, hhash]), if_neg hopen, hdelim]
  simp only [true_or, if_true, hname]

theorem iniValue_text (h : IsSettingValue value) {bl behind : List Char}
    (hbl : ∀ c ∈ bl, isSpace c = true) (hbehind : ∀ c ∈ behind, isSpace c = true) :
    iniValue (rstrip (bl ++ (value ++ behind))) = value := by
  have hvalue : rstrip value = value := by
    have hpadded := rdropWhile_padded (t := []) h.trimmed.last (by simp)
    rwa [List.append_nil] at hpadded
  have hend : findCharOrComment '\x00' false value = (value, []) :=
    findCharOrComment_end h.comment h.nul
  cases hnil : value with
  | nil =>
    have hall : rstrip (bl ++ ([] ++ behind)) = [] := by
      apply List.rdropWhile_eq_nil_iff.2
      intro c hc
      rcases List.mem_append.1 hc with hc | hc
      · exact hbl c hc
      · exact hbehind c hc
    rw [hall]
    rfl
  | cons d ds =>
    rw [← hnil]
    have hstrip : rstrip (bl ++ (value ++ behind)) = bl ++ value := by
      rw [← List.append_assoc]
      refine rdropWhile_padded ?_ hbehind
      intro c hc
      rw [List.getLast?_append_of_ne_nil _ (by simp [hnil])] at hc
      exact h.trimmed.last c hc
    rw [hstrip, iniValue, lskip, dropWhile_padded hbl h.trimmed.head, hend, hvalue]

theorem iniValue_commented (h : IsSettingValue value) (hne : value ≠ []) {bl gap : List Char}
    (hbl : ∀ c ∈ bl, isSpace c = true) (hgap : ∀ c ∈ gap, isSpace c = true) {p : Char}
    (hp : isSpace p = true) (remark : List Char) :
    iniValue (rstrip (bl ++ (value ++ (gap ++ p :: ';' :: remark)))) = value := by
  have hspaces : ∀ c ∈ gap ++ [p], isSpace c = true := by
    intro c hc
    rcases List.mem_append.1 hc with hc | hc
    · exact hgap c hc
    · rwa [List.mem_singleton.1 hc]
  have hstrip : rstrip (bl ++ (value ++ (gap ++ p :: ';' :: remark))) =
      bl ++ (value ++ (gap ++ p :: ';' :: rstrip remark)) := by
    have hlast := rdropWhile_append_of_last (p := isSpace)
      (s := bl ++ (value ++ (gap ++ [p, ';']))) (t := remark) (by
        intro c hc
        rw [← List.append_assoc, ← List.append_assoc, List.getLast?_append_of_ne_nil _
          (by simp)] at hc
        cases hc
        rfl)
    simpa [rstrip] using hlast
  have hskip : lskip (bl ++ (value ++ (gap ++ p :: ';' :: rstrip remark))) =
      value ++ (gap ++ p :: ';' :: rstrip remark) := by
    refine dropWhile_padded hbl ?_
    intro c hc
    rw [List.head?_append_of_ne_nil _ hne] at hc
    exact h.trimmed.head c hc
  have hnone : NoComment (value ++ gap ++ [p]) := by
    rw [List.append_assoc]
    exact h.comment.append (noComment_of_isSpace hspaces) (head_ne_semicolon hspaces)
  have hnul : '\x00' ∉ value ++ gap ++ [p] := by
    rw [List.append_assoc, List.mem_append, not_or]
    exact ⟨h.nul, notMem_of_isSpace hspaces rfl⟩
  have hcomment := findCharOrComment_comment (t := rstrip remark) hnone hp hnul
  rw [List.append_assoc] at hcomment
  rw [hstrip, iniValue, hskip, hcomment, List.append_assoc]
  exact rdropWhile_padded h.trimmed.last hspaces

end Lines

/-! ## The loop on the lines of a text -/

section Loop

variable {handler : CfgParseHandler σ} {s : IniState σ} {line : List Char}

/-- The loop on the rest of a file. -/
def iniParseFrom (handler : CfgParseHandler σ) (file : List Char) (s : IniState σ) : IniState σ :=
  iniParseLines handler (fgetsAll '\n' (iniMaxLine - 1) file) s

theorem bom_prefix_newline : bom <+: line ++ ['\n'] ↔ bom <+: line := by
  refine ⟨?_, fun h => h.trans (List.prefix_append _ _)⟩
  intro h
  rw [List.prefix_concat_iff] at h
  rcases h with h | h
  · have hlast := congrArg List.getLast? h
    rw [List.getLast?_concat] at hlast
    exact absurd hlast (by decide)
  · exact h

/-- The newline in the buffer makes no difference. -/
theorem iniStart_newline (lineno : ℕ) (line : List Char) :
    iniStart lineno (line ++ ['\n']) = iniStart lineno line := by
  have hstrip (t : List Char) : rstrip (t ++ ['\n']) = rstrip t :=
    List.rdropWhile_concat_pos isSpace t '\n' rfl
  by_cases hbom : lineno = 1 ∧ bom <+: line
  · have hnewline : lineno = 1 ∧ bom <+: line ++ ['\n'] :=
      ⟨hbom.1, bom_prefix_newline.2 hbom.2⟩
    have hlong : 3 ≤ line.length := hbom.2.length_le
    rw [iniStart, iniStart, if_pos hbom, if_pos hnewline,
      List.drop_append_of_le_length hlong, hstrip]
  · have hnewline : ¬(lineno = 1 ∧ bom <+: line ++ ['\n']) :=
      fun h => hbom ⟨h.1, bom_prefix_newline.1 h.2⟩
    rw [iniStart, iniStart, if_neg hbom, if_neg hnewline, hstrip]

theorem next_newline (line : List Char) :
    s.next handler (line ++ ['\n']) = s.next handler line := by
  by_cases hnul : '\x00' ∈ line
  · -- the string in the buffer ends in front of the newline
    obtain ⟨front, behind, rfl, hfront⟩ := List.eq_append_cons_of_mem hnul
    rw [IniState.next, IniState.next, List.append_assoc, List.cons_append, cstr_append_nul hfront,
      cstr_append_nul hfront]
  · have hcstr : cstr (line ++ ['\n']) = line ++ ['\n'] := by
      apply cstr_of_nulFree
      rw [List.mem_append, not_or]
      exact ⟨hnul, by decide⟩
    rw [IniState.next, IniState.next, hcstr, cstr_of_nulFree hnul, iniStart_newline]

theorem iniParseLines_cons (herror : (s.next handler line).error = 0)
    (lines : List (List Char)) :
    iniParseLines handler (line :: lines) s =
      iniParseLines handler lines (s.next handler line) := by
  rw [iniParseLines, if_neg (by simp [herror])]

@[simp] theorem lineno_next (line : List Char) : (s.next handler line).lineno = s.lineno + 1 := by
  rw [IniState.next]
  cases iniLine (iniStart (s.lineno + 1) (cstr line)) <;> rfl

/-- Only the first line can begin with the BOM. -/
theorem iniStart_of_not_bom {lineno : ℕ} (h : lineno = 1 → ¬bom <+: line) :
    iniStart lineno line = lskip (rstrip line) := by
  rw [iniStart, if_neg fun hbom => h hbom.1 hbom.2]

theorem next_emptyLine : s.next handler ['\n'] = { s with lineno := s.lineno + 1 } := by
  have hstart : iniStart (s.lineno + 1) (cstr ['\n']) = [] := by
    apply iniStart_of_not_bom
    exact fun _ => by decide
  rw [IniState.next, hstart]
  rfl

/-- A line that goes without an error, and fits into the buffer but for its newline at most. -/
theorem iniParseFrom_line (htext : IsText line) (hfits : line.length < iniMaxLine)
    (herror : (s.next handler line).error = 0) (rest : List Char) :
    ∃ n, s.lineno < n ∧ iniParseFrom handler (line ++ '\n' :: rest) s =
      iniParseFrom handler rest { s.next handler line with lineno := n } := by
  by_cases hfull : line.length = iniMaxLine - 1
  · -- the next buffer holds the newline alone
    refine ⟨s.lineno + 2, by omega, ?_⟩
    have hcut := fgetsAll_full htext.newline (by rw [hfull]; decide) rest
    rw [hfull] at hcut
    rw [iniParseFrom, hcut, iniParseLines_cons herror,
      iniParseLines_cons (by rw [next_emptyLine, herror]), next_emptyLine, lineno_next]
    rfl
  · refine ⟨s.lineno + 1, Nat.lt_succ_self _, ?_⟩
    have hcut : fgetsAll '\n' (iniMaxLine - 1) (line ++ '\n' :: rest) =
        (line ++ ['\n']) :: fgetsAll '\n' (iniMaxLine - 1) rest :=
      fgetsAll_line htext.newline (by omega) rest
    rw [iniParseFrom, hcut, iniParseLines_cons (by rwa [next_newline]), next_newline,
      ← lineno_next line]
    rfl

end Loop

/-! ## Whatever is delivered is readable -/

/-- A handler that keeps what it gets. -/
def record : CfgParseHandler (List ConfigEntry) := fun entries entry => (entries ++ [entry], true)

/-- The name of the section, and the settings delivered so far. -/
structure Delivering (s : IniState (List ConfigEntry)) : Prop where
  sectionName : IsSectionName s.sectionName
  readable : ∀ e ∈ s.user, Readable e

/-- What the branches of the loop look at is text, without white space at its ends. -/
theorem isText_iniStart (lineno : ℕ) {line : List Char} (hnl : '\n' ∉ line.dropLast) :
    IsText (iniStart lineno (cstr line)) ∧
      Trimmed isSpace (iniStart lineno (cstr line)) ∧
      (iniStart lineno (cstr line)).length ≤ line.length := by
  have hstart : ∃ s, s <:+ cstr line ∧ iniStart lineno (cstr line) = lskip (rstrip s) := by
    by_cases hbom : lineno = 1 ∧ bom <+: cstr line
    · exact ⟨(cstr line).drop 3, List.drop_suffix _ _, by rw [iniStart, if_pos hbom]⟩
    · exact ⟨cstr line, List.suffix_rfl, by rw [iniStart, if_neg hbom]⟩
  obtain ⟨s, hs, hstart⟩ := hstart
  have hcstr : cstr line <+: line := List.takeWhile_prefix _
  have hstrip : rstrip s <+: s := List.rdropWhile_prefix _ _
  have hskip : lskip (rstrip s) <:+ rstrip s := List.dropWhile_suffix _
  have htext : IsText (rstrip s) := {
    newline := newline_notMem_rstrip hnl (hs.isInfix.trans hcstr.isInfix)
    nul := fun hmem => nul_notMem_cstr line (hs.subset (hstrip.subset hmem)) }
  rw [hstart]
  refine ⟨htext.of_sublist hskip.sublist, trimmed_dropWhile_rdropWhile, ?_⟩
  calc (lskip (rstrip s)).length ≤ (rstrip s).length := hskip.length_le
    _ ≤ s.length := hstrip.length_le
    _ ≤ (cstr line).length := hs.length_le
    _ ≤ line.length := hcstr.length_le

/-- **Step lemma.** -/
theorem Delivering.next {s : IniState (List ConfigEntry)} (hs : Delivering s) {line : List Char}
    (hnl : '\n' ∉ line.dropLast) (hfits : line.length < iniMaxLine) :
    Delivering (s.next record line) := by
  obtain ⟨htext, htrimmed, hlength⟩ := isText_iniStart (s.lineno + 1) hnl
  rw [IniState.next]
  cases hline : iniLine (iniStart (s.lineno + 1) (cstr line)) with
  | blank | malformed => exact ⟨hs.sectionName, hs.readable⟩
  | header sectionName => exact ⟨isSectionName_of_header htext hline, hs.readable⟩
  | setting name value =>
    obtain ⟨hname, hvalue, hle⟩ := readable_of_setting htext htrimmed hline
    refine ⟨hs.sectionName, ?_⟩
    intro e he
    rcases List.mem_append.1 he with he | he
    · exact hs.readable e he
    · rw [List.mem_singleton.1 he]
      exact ⟨hs.sectionName, hname, hvalue, lt_of_le_of_lt (hle.trans hlength) hfits⟩

theorem delivering_iniParseLines {lines : List (List Char)} {s : IniState (List ConfigEntry)}
    (hs : Delivering s)
    (hlines : ∀ line ∈ lines, '\n' ∉ line.dropLast ∧ line.length < iniMaxLine) :
    Delivering (iniParseLines record lines s) := by
  induction lines generalizing s with
  | nil => exact hs
  | cons line lines ih =>
    obtain ⟨hnl, hfits⟩ := hlines line List.mem_cons_self
    have hnext := hs.next hnl hfits
    rw [iniParseLines]
    by_cases herror : (s.next record line).error ≠ 0
    · rwa [if_pos herror]
    · rw [if_neg herror]
      exact ih hnext fun l hl => hlines l (List.mem_cons_of_mem line hl)

theorem delivered_readable (file : List Char) :
    ∀ e ∈ (iniParseFileCore record file []).user, Readable e := by
  have hinit : Delivering { user := [] } := by
    refine ⟨⟨⟨by simp, by simp⟩, by decide, by simp, List.IsChain.nil⟩, by simp⟩
  refine (delivering_iniParseLines hinit ?_).readable
  intro line hline
  have hle := length_le_of_mem_fgetsAll hline
  exact ⟨newline_of_mem_fgetsAll hline, by rw [iniMaxLine] at hle ⊢; omega⟩

end Spartan

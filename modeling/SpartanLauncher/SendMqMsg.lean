import SpartanLauncher.Lib.CString
import SpartanLauncher.Message

/-!
# The flattened message

`send_flattened_argv_mq_msg` puts the extended-invoke option, the name of the unix datagram
socket and the arguments of the command line into one string: each in double quotes, and a space
between two of them. The sizes of the first two are those of the strings passed in; the filter
that removes the `-pipe=` option runs on the array before the strings are copied.

**Theorem (`sendFlattenedArgvMqMsg_eq`).** The buffer is large enough whatever the strings are,
and the message is the quoted entries joined by spaces.
-/

namespace Spartan

open CString

def pipeOptn : List Char := "pipe=".toList

/-- `-pipe=...`, in any case. -/
def isPipeOption : List Char → Bool
  | '-' :: optn => strncasecmpEq optn pipeOptn pipeOptn.length
  | _ => false

/-- The filter that `forkable_main_entry` passes: it removes the first `-pipe=` option. -/
def removePipeOption (argv : List (List Char)) : List (List Char) := argv.eraseP isPipeOption

/-- `strlen("\"\" ")`. -/
def quoteOverhead : ℕ := 3

/-- An entry of the array together with its size in double quotes. -/
def quoted (n : ℕ) (arg : List Char) : List Char := '"' :: (strncpy arg n ++ ['"'])

/-- One iteration of the loop that fills the buffer: an entry of size zero is skipped. -/
def copyArg (bufSize : ℕ) (written : List Char) (entry : ℕ × List Char) : Option (List Char) :=
  if entry.1 = 0 then some written
  else writeBuf bufSize written (quoted entry.1 entry.2 ++ [' '])

/-- The message that `send_flattened_argv_mq_msg` posts for the arguments behind the program
name. `none` stands for a write outside of the buffer, or of the array of sizes. -/
def sendFlattenedArgvMqMsg (args : List (List Char)) (extendedInvokeCmd udsSocketName : List Char) :
    Option (List Char) :=
  let argvDup := removePipeOption (extendedInvokeCmd :: udsSocketName :: args)
  let argvSizes := extendedInvokeCmd.length :: udsSocketName.length ::
    (argvDup.drop 2).map List.length
  if argvDup.length < 2 then none
  else
    let bufSize := (argvSizes.map (· + quoteOverhead)).sum + 1
    ((argvSizes.zip argvDup).foldlM (copyArg bufSize) []).bind fun written =>
      -- the last space becomes the terminating NUL
      if written.isEmpty then none else some written.dropLast

/-! ## The message in closed form -/

/-- The entries that are not skipped. -/
def copied (entries : List (ℕ × List Char)) : List (List Char) :=
  (entries.filter fun e => decide (e.1 ≠ 0)).map fun e => quoted e.1 e.2

theorem length_quoted (n : ℕ) (arg : List Char) : (quoted n arg).length = n + 2 := by
  simp [quoted]

theorem foldlM_copyArg (bufSize : ℕ) (entries : List (ℕ × List Char)) (written : List Char)
    (hsize : written.length + ((entries.map Prod.fst).map (· + quoteOverhead)).sum ≤ bufSize) :
    entries.foldlM (copyArg bufSize) written =
      some (written ++ (copied entries).flatMap (· ++ [' '])) := by
  induction entries generalizing written with
  | nil => simp [copied]
  | cons e entries ih =>
    simp only [List.map_cons, List.sum_cons, quoteOverhead] at hsize
    by_cases he : e.1 = 0
    · have hcopied : copied (e :: entries) = copied entries := by simp [copied, he]
      rw [List.foldlM_cons, copyArg, if_pos he, hcopied]
      exact ih written (by unfold quoteOverhead; omega)
    · have hcopied : copied (e :: entries) = quoted e.1 e.2 :: copied entries := by
        simp [copied, he]
      have hblock : (quoted e.1 e.2 ++ [' ']).length = e.1 + 3 := by simp [length_quoted]
      rw [List.foldlM_cons, copyArg, if_neg he, writeBuf, hblock, if_pos (by omega), hcopied]
      have := ih (written ++ (quoted e.1 e.2 ++ [' '])) (by
        rw [List.length_append, hblock]; unfold quoteOverhead; omega)
      simpa [List.append_assoc] using this

/-- Dropping the last separator leaves the blocks joined by it. -/
theorem dropLast_flatMap_sep {α : Type*} (sep : α) {blocks : List (List α)} (hne : blocks ≠ []) :
    (blocks.flatMap (· ++ [sep])).dropLast = [sep].intercalate blocks := by
  induction blocks with
  | nil => exact absurd rfl hne
  | cons b blocks ih =>
    cases blocks with
    | nil => simp
    | cons b' blocks =>
      rw [List.intercalate_cons_cons, ← ih (List.cons_ne_nil _ _), List.flatMap_cons,
        List.dropLast_append_of_ne_nil (by simp)]

/-- **The buffer is large enough,** and the message is the quoted entries joined by spaces. -/
theorem sendFlattenedArgvMqMsg_eq {args : List (List Char)} {ext uds : List Char}
    {a b : List Char} {rest : List (List Char)} (hext : ext ≠ [])
    (hfilter : removePipeOption (ext :: uds :: args) = a :: b :: rest) :
    sendFlattenedArgvMqMsg args ext uds =
      some ([' '].intercalate (copied ((ext.length, a) :: (uds.length, b) ::
        rest.map fun arg => (arg.length, arg)))) := by
  set entries := (ext.length, a) :: (uds.length, b) :: rest.map fun arg => (arg.length, arg)
    with hentries
  have hzip : (ext.length :: uds.length :: rest.map List.length).zip (a :: b :: rest) =
      entries := by
    have hrest := List.zip_map' (f := List.length) (g := id) (l := rest)
    rw [List.map_id] at hrest
    rw [List.zip_cons_cons, List.zip_cons_cons, hrest]
    rfl
  have hfst : entries.map Prod.fst = ext.length :: uds.length :: rest.map List.length := by
    simp [hentries, Function.comp_def]
  have hcopied : copied entries ≠ [] := by
    simp [copied, hentries, hext]
  have hfold := foldlM_copyArg (((entries.map Prod.fst).map (· + quoteOverhead)).sum + 1) entries
    [] (by simp)
  rw [hfst] at hfold
  simp only [sendFlattenedArgvMqMsg, hfilter, List.length_cons, List.drop_succ_cons,
    List.drop_zero, hzip]
  rw [if_neg (by omega), hfold, Option.bind_some, List.nil_append, dropLast_flatMap_sep _ hcopied]
  obtain ⟨block, blocks, hblocks⟩ := List.exists_cons_of_ne_nil hcopied
  simp [hblocks]

end Spartan

import Mathlib.Data.List.TakeWhile
import Os0.Lib.Split
import Os0.Process.ExecIds

/-! `process_exec_sh` (`kernel/process.c`) with every access to its buffer and its vector. A pointer
into the buffer is the rest of the buffer from there on, and an empty rest cannot be read. -/
namespace Os0

open Bytes Split

/-- `strchr` in a buffer: the index of `c`. -/
def strchr (c : UInt8) : List UInt8 → Option (Option Nat)
  | [] => none
  | b :: rest =>
    if b = c then some (some 0)
    else if b = 0 then some none
    else (strchr c rest).map fun found => found.map (· + 1)

/-- A newline becomes the end of the string. -/
def cutLine (buffer : List UInt8) : Option (List UInt8) :=
  (strchr (ch '\n') buffer).map fun
    | some i => buffer.set i 0
    | none => buffer

def skipSpaces : List UInt8 → Option (List UInt8)
  | [] => none
  | b :: rest => if isspace b then skipSpaces rest else some (b :: rest)

/-- The word at a pointer, and the pointer `end` behind it. -/
def wordAt : List UInt8 → Option (List UInt8 × List UInt8)
  | [] => none
  | b :: rest =>
    if b = 0 ∨ isspace b then some ([], b :: rest)
    else (wordAt rest).map fun (word, stop) => (b :: word, stop)

/-- The loop over the words of the line. Its check of the vector is on unsigned numbers. -/
def collectWords (nargs : Nat) :
    Nat → Nat → List UInt8 → Option (Except Errno (List (List UInt8)))
  | 0, _, _ => none
  | fuel + 1, i, ptr =>
    (skipSpaces ptr).bind fun ptr =>
      (wordAt ptr).bind fun
        | (_, []) => none
        | (word, b :: rest) =>
          if sub32 255 nargs ≤ i then some (.error Errno.EIO)
          else if 256 ≤ i then none
          else if b = 0 then some (.ok [word])
          else (collectWords nargs fuel (i + 1) rest).map fun r => r.map (word :: ·)

/-- The vector that `process_exec_sh` passes on. The `memcpy` behind the words also copies the
`NULL` at the end of `argv`. -/
def execShVector (buffer : List UInt8) (argv : List (List UInt8)) :
    Option (Except Errno (List (List UInt8))) :=
  (cutLine buffer).bind fun buffer =>
    (collectWords argv.length (buffer.length + 1) 0 buffer).bind fun
      | .error e => some (.error e)
      | .ok words =>
        if 256 < words.length + (argv.length + 1) then none else some (.ok (words ++ argv))

/-- `process_exec_sh` up to the vector. -/
def processExecSh (env : ExecEnv) (c : Credentials) (f : ExecFile) (argv : List (List UInt8)) :
    Option (Except Errno (List (List UInt8))) :=
  match vfsRead c f 127 2 with
  | .error _ => some (.error Errno.EIO)
  | .ok bytes => execShVector (execBuffer env bytes 127) argv

section Line

variable {buffer line rest : List UInt8}

theorem cutLine_some (found : hashbangLine buffer = some line) :
    (∀ b ∈ line, b ≠ 0) ∧ ∃ rest, cutLine buffer = some (line ++ 0 :: rest) ∧
      buffer.length = line.length + (rest.length + 1) := by
  induction buffer generalizing line with
  | nil => simp [hashbangLine] at found
  | cons b buffer ih =>
    by_cases newline : b = 10
    · simp only [hashbangLine, newline] at found
      obtain rfl : [] = line := by simpa using found
      exact ⟨by simp, buffer, by simp [cutLine, strchr, newline, ch], by simp⟩
    · by_cases zero : b = 0
      · simp only [hashbangLine, zero] at found
        obtain rfl : [] = line := by simpa using found
        exact ⟨by simp, buffer, by simp [cutLine, strchr, zero, ch], by simp⟩
      · have parts : ∃ tail, hashbangLine buffer = some tail ∧ line = b :: tail := by
          simp only [hashbangLine] at found ⊢
          simp only [List.any_cons, newline, zero, or_self, decide_false, Bool.false_or,
            List.takeWhile_cons, not_false_eq_true, decide_true, if_true] at found
          split at found
          case isTrue any => exact ⟨_, if_pos any, by simpa using found.symm⟩
          case isFalse => cases found
        obtain ⟨tail, foundTail, rfl⟩ := parts
        obtain ⟨plain, rest, cut, length⟩ := ih foundTail
        refine ⟨by simpa [zero] using plain, rest, ?_, by simp [length]; omega⟩
        simp only [cutLine, Option.map_eq_some_iff] at cut ⊢
        obtain ⟨found, searched, eq⟩ := cut
        refine ⟨found.map (· + 1), ?_, ?_⟩
        · have other : b ≠ ch '\n' := newline
          rw [strchr, if_neg other, if_neg zero, searched]
          rfl
        cases found with
        | none => simpa using eq
        | some i => simpa using eq

theorem cutLine_none (missing : hashbangLine buffer = none) : cutLine buffer = none := by
  induction buffer with
  | nil => rfl
  | cons b buffer ih =>
    have parts : b ≠ 10 ∧ b ≠ 0 ∧ hashbangLine buffer = none := by
      simpa [hashbangLine, and_assoc] using missing
    obtain ⟨newline, zero, missing⟩ := parts
    have searched : strchr (ch '\n') buffer = none := by simpa [cutLine] using ih missing
    simp only [cutLine, strchr, searched]
    simp [newline, zero, ch]

theorem skipSpaces_eq (line rest : List UInt8) :
    skipSpaces (line ++ 0 :: rest) = some (line.dropWhile isspace ++ 0 :: rest) := by
  induction line with
  | nil => simp [skipSpaces, show isspace 0 = false by decide]
  | cons b line ih =>
    by_cases space : isspace b = true
    · simp [skipSpaces, space, ih]
    · simp [skipSpaces, space]

theorem wordAt_eq (plain : ∀ b ∈ line, b ≠ 0) :
    wordAt (line ++ 0 :: rest) = some (line.takeWhile fun c => ¬isspace c,
      (line.dropWhile fun c => ¬isspace c) ++ 0 :: rest) := by
  induction line with
  | nil => simp [wordAt]
  | cons b line ih =>
    have zero : b ≠ 0 := plain b ((.head _) ..)
    have later := ih fun c mem => plain c (.tail _ mem)
    by_cases space : isspace b = true
    · simp [wordAt, space]
    · simp only [List.cons_append, wordAt, later]
      simp [space, zero]

end Line

section Words

variable {line xs ys : List UInt8}

/-- The last character is part of a word. -/
def endsInWord (line : List UInt8) : Bool := line.getLast?.any fun c => ¬isspace c

theorem endsInWord_append (some : ys ≠ []) : endsInWord (xs ++ ys) = endsInWord ys := by
  rw [endsInWord, List.getLast?_append_of_ne_nil _ some, endsInWord]

theorem endsInWord_spaces (spaces : ∀ c ∈ line, isspace c = true) : endsInWord line = false := by
  simp only [endsInWord, Option.any_eq_false]
  intro c last
  simpa using spaces c (List.mem_of_getLast? last)

theorem endsInWord_word (plain : ∀ c ∈ line, isspace c = false) (some : line ≠ []) :
    endsInWord line = true := by
  rw [endsInWord, List.getLast?_eq_getLast_of_ne_nil some]
  simpa using plain _ (List.getLast_mem some)

/-- A line is cut behind its spaces and behind the first word. -/
theorem line_cut (line : List UInt8) : ∃ spaces,
    line = spaces ++ line.dropWhile isspace ∧ (∀ c ∈ spaces, isspace c = true) ∧
    ∀ b rest, line.dropWhile isspace = b :: rest → isspace b = false := by
  refine ⟨line.takeWhile isspace, List.takeWhile_append_dropWhile.symm,
    fun c mem => List.mem_takeWhile_imp mem, fun b rest eq => ?_⟩
  have head := List.head?_dropWhile_not isspace line
  rw [eq] at head
  simpa using head

theorem word_cut (line : List UInt8) : ∃ word stop,
    (line.takeWhile fun c => ¬isspace c) = word ∧ (line.dropWhile fun c => ¬isspace c) = stop ∧
    line = word ++ stop ∧ (∀ c ∈ word, isspace c = false) ∧
    ∀ b rest, stop = b :: rest → isspace b = true := by
  refine ⟨_, _, rfl, rfl, List.takeWhile_append_dropWhile.symm, fun c mem => ?_,
    fun b rest eq => ?_⟩
  · simpa using List.mem_takeWhile_imp mem
  · have head := List.head?_dropWhile_not (fun c => decide ¬isspace c = true) line
    rw [eq] at head
    simpa using head

/-- The words are the tokens of the line, and an empty one if no word ends the line. -/
theorem hashbangWords_eq {fuel : Nat} (enough : line.length < fuel) :
    hashbangWords fuel line =
      tokens isspace line ++ if endsInWord line then [] else [[]] := by
  induction fuel generalizing line with
  | zero => omega
  | succ fuel ih =>
    obtain ⟨_, cut, isSpace, starts⟩ := line_cut line
    obtain ⟨word, stop, taken, dropped, wordCut, plain, ends⟩ := word_cut (line.dropWhile isspace)
    rw [hashbangWords, ← tokens_dropWhile line]
    simp only [taken, dropped]
    rw [wordCut] at cut starts ⊢
    cases stop with
    | nil =>
      rw [List.append_nil] at cut ⊢
      by_cases empty : word = []
      · rw [cut, empty, List.append_nil, endsInWord_spaces isSpace]
        simp
      · rw [cut, endsInWord_append empty, endsInWord_word plain empty, tokens_word plain empty]
        simp
    | cons b rest =>
      have isSep := ends b rest rfl
      have some : word ≠ [] := by
        rintro rfl
        exact absurd isSep (by simp [starts b rest rfl])
      have shorter : rest.length < fuel := by
        rw [cut] at enough
        simp only [List.length_append, List.length_cons] at enough
        omega
      have last : endsInWord line = endsInWord rest := by
        rw [cut, endsInWord_append (by simp), endsInWord_append (by simp)]
        cases rest with
        | nil => simp [endsInWord, isSep]
        | cons c rest => exact @endsInWord_append [b] _ (by simp)
      have later := ih shorter
      rw [tokens_word_sep plain some isSep, last, List.cons_append, ← later]

theorem scriptWords_eq (line : List UInt8) :
    scriptWords line = tokens isspace line ++ if endsInWord line then [] else [[]] :=
  hashbangWords_eq (Nat.lt_succ_self _)

theorem scriptWords_ne_nil (line : List UInt8) : scriptWords line ≠ [] := by
  rw [scriptWords, hashbangWords]
  split <;> simp

end Words

section Vector

variable {line rest : List UInt8} {nargs i fuel : Nat}

theorem hashbangWords_some (fuel : Nat) (line : List UInt8) :
    0 < (hashbangWords (fuel + 1) line).length := by
  rw [hashbangWords]
  split <;> simp

theorem collectWords_eq (plain : ∀ b ∈ line, b ≠ 0) (enough : line.length < fuel)
    (few : nargs ≤ 255) (room : i ≤ 255 - nargs) :
    collectWords nargs fuel i (line ++ 0 :: rest) =
      if 255 - nargs < i + (hashbangWords fuel line).length then some (.error Errno.EIO)
      else some (.ok (hashbangWords fuel line)) := by
  induction fuel generalizing line i with
  | zero => omega
  | succ fuel ih =>
    have words := hashbangWords_some fuel line
    have plainRest : ∀ b ∈ line.dropWhile isspace, b ≠ 0 := fun b mem =>
      plain b ((List.dropWhile_sublist _).subset mem)
    rw [collectWords, skipSpaces_eq, Option.bind_some, wordAt_eq plainRest, Option.bind_some,
      sub32_eq few (by decide)]
    by_cases full : 255 - nargs ≤ i
    · rw [if_pos (by omega)]
      cases stop : (line.dropWhile isspace).dropWhile fun c => ¬isspace c with
      | nil => simp [full]
      | cons b rest => simp [full]
    · have small : ¬256 ≤ i := by omega
      rw [hashbangWords] at words ⊢
      obtain ⟨_, stop, taken, dropped, wordCut, -, ends⟩ := word_cut (line.dropWhile isspace)
      simp only [taken, dropped] at words ⊢
      cases stop with
      | nil =>
        simp only [List.nil_append, full, small, if_false, if_true, List.length_singleton]
        rw [if_neg (by omega)]
      | cons b later =>
        have space := ends b later rfl
        have zero : b ≠ 0 := by
          rintro rfl
          exact absurd space (by decide)
        have inside : ∀ c ∈ later, c ∈ line.dropWhile isspace := fun c mem => by
          rw [wordCut]
          simp [mem]
        have shorter : later.length < fuel := by
          have sub := (List.dropWhile_sublist isspace (l := line)).length_le
          rw [wordCut] at sub
          simp only [List.length_append, List.length_cons] at sub
          omega
        have next := ih (i := i + 1) (fun c mem => plainRest c (inside c mem)) shorter (by omega)
        simp only [List.cons_append, full, small, zero, if_false, next, List.length_cons]
        have sum : i + 1 + (hashbangWords fuel later).length =
            i + ((hashbangWords fuel later).length + 1) := by omega
        rw [sum]
        split <;> rfl

theorem collectWords_some {ptr : List UInt8} {words : List (List UInt8)}
    (result : collectWords nargs fuel i ptr = some (.ok words)) : 0 < words.length := by
  cases fuel with
  | zero => cases result
  | succ fuel =>
    simp only [collectWords, Option.bind_eq_some_iff] at result
    obtain ⟨ptr, -, ⟨_, stop⟩, -, result⟩ := result
    cases stop with
    | nil => cases result
    | cons b rest =>
      simp only at result
      repeat' split at result
      · cases result
      · cases result
      · cases result
        simp
      · obtain ⟨r, -, eq⟩ := Option.map_eq_some_iff.1 result
        cases r with
        | error e => cases eq
        | ok rest =>
          cases eq
          simp

/-- With a larger vector the check never fails. -/
theorem collectWords_many {ptr : List UInt8} {e : Errno} (many : 255 < nargs)
    (room : nargs < 1073741824) (small : i + fuel < 1073741824) :
    collectWords nargs fuel i ptr ≠ some (.error e) := by
  induction fuel generalizing ptr i with
  | zero => simp [collectWords]
  | succ fuel ih =>
    have limit : ¬sub32 255 nargs ≤ i := by
      unfold sub32
      omega
    intro result
    simp only [collectWords, Option.bind_eq_some_iff] at result
    obtain ⟨ptr, -, ⟨_, stop⟩, -, result⟩ := result
    cases stop with
    | nil => cases result
    | cons b =>
      simp only [limit, if_false] at result
      split at result
      · cases result
      · split at result
        · cases result
        · rw [Option.map_eq_some_iff] at result
          obtain ⟨r, inner, eq⟩ := result
          cases r with
          | error e' =>
            obtain rfl : e' = e := by simpa [Except.map] using eq
            exact ih (i := i + 1) (by omega) inner
          | ok => cases eq

variable {buffer : List UInt8} {argv vector : List (List UInt8)}

/-- What `process_exec_sh` makes of its buffer. The pointers of `argv` are in the memory. -/
theorem execShVector_eq (size : buffer.length = 127) (room : argv.length < 1073741824) :
    execShVector buffer argv = (hashbangLine buffer).bind fun line =>
      if 255 < argv.length then none
      else if 255 - argv.length < (scriptWords line).length then some (.error Errno.EIO)
      else some (.ok (scriptWords line ++ argv)) := by
  cases found : hashbangLine buffer with
  | none => simp [execShVector, cutLine_none found]
  | some line =>
    obtain ⟨plain, rest, cut, length⟩ := cutLine_some found
    rw [execShVector, cut, Option.bind_some, Option.bind_some]
    have total : (line ++ 0 :: rest).length = 127 := by simp [← length, size]
    rw [total]
    by_cases many : 255 < argv.length
    · rw [if_pos many]
      cases words : collectWords argv.length (127 + 1) 0 (line ++ 0 :: rest) with
      | none => rfl
      | some r =>
        cases r with
        | error e => exact absurd words (collectWords_many many room (by decide))
        | ok words => exact if_pos (by omega)
    · have enough : line.length < 127 + 1 := by omega
      rw [if_neg many, collectWords_eq plain enough (by omega) (Nat.zero_le _),
        hashbangWords_eq enough, ← scriptWords_eq, zero_add]
      split_ifs with full
      · rfl
      · exact if_neg (by omega)

/-- There is at least one more argument, and there are no more than 255. -/
theorem execShVector_grows (passed : execShVector buffer argv = some (.ok vector)) :
    argv.length < vector.length ∧ vector.length ≤ 255 := by
  simp only [execShVector, Option.bind_eq_some_iff] at passed
  obtain ⟨_, -, r, collected, passed⟩ := passed
  cases r with
  | error e => simp at passed
  | ok =>
    have some := collectWords_some collected
    simp only at passed
    split at passed
    case isTrue => cases passed
    case isFalse _ =>
      cases passed
      simp only [List.length_append]
      omega

end Vector

section Chain

variable {env : ExecEnv} {c : Credentials}

/-- The file begins with `#!`. -/
def IsScript (env : ExecEnv) (c : Credentials) (f : ExecFile) : Prop :=
  ∃ bytes, vfsRead c f 2 0 = .ok bytes ∧ execBuffer env bytes 2 = [0x23, 0x21]

/-- A script starts its interpreter with the longer vector. -/
def Starts (env : ExecEnv) (c : Credentials) (call next : ExecFile × List (List UInt8)) : Prop :=
  IsScript env c call.1 ∧ processExecSh env c call.1 call.2 = some (.ok next.2) ∧
    env.openFile c (next.2.headD []) = .ok next.1

theorem processExecSh_grows {f : ExecFile} {argv vector : List (List UInt8)}
    (passed : processExecSh env c f argv = some (.ok vector)) :
    argv.length < vector.length ∧ vector.length ≤ 255 := by
  unfold processExecSh at passed
  split at passed
  · cases passed
  · exact execShVector_grows passed

/-- The vector grows with every interpreter and cannot grow for ever. -/
theorem interpreters_end (env : ExecEnv) (c : Credentials) :
    WellFounded fun next call => Starts env c call next := by
  have grows : ∀ next call, Starts env c call next →
      256 - next.2.length < 256 - call.2.length := by
    rintro next call ⟨-, passed, -⟩
    obtain ⟨_, _⟩ := processExecSh_grows passed
    omega
  exact Subrelation.wf (grows _ _) (measure fun call : ExecFile × List (List UInt8) =>
    256 - call.2.length).wf

variable {p : Process} {f : ExecFile} {argv envp : List (List UInt8)} {depth more : Nat}

/-- `process_exec` of a script, by the vector that `process_exec_sh` passes on. -/
theorem processExec_script (script : IsScript env p.cred f) (room : argv.length < 1073741824) :
    processExec env (depth + 1) p f argv envp =
      (processExecSh env p.cred f argv).bind fun
        | .error e => some (.error (.errno e), p)
        | .ok vector =>
          match env.openFile p.cred (vector.headD []) with
          | .error e => some (.error (.errno e), p)
          | .ok g => processExec env depth p g vector envp := by
  obtain ⟨_, first, mark⟩ := script
  rw [processExec, processExecSh, first]
  simp only [mark, if_true]
  cases vfsRead p.cred f 127 2 with
  | error e => rfl
  | ok bytes =>
    have size : (execBuffer env bytes 127).length = 127 := by simp [execBuffer]
    simp only [execShVector_eq size room]
    cases hashbangLine (execBuffer env bytes 127) with
    | none => rfl
    | some line =>
      have head : (scriptWords line ++ argv).headD [] = (scriptWords line).headD [] := by
        cases words : scriptWords line with
        | nil => exact absurd words (scriptWords_ne_nil line)
        | cons _ words => rfl
      rw [Option.bind_some, Option.bind_some]
      split
      case isTrue => rfl
      case isFalse =>
        split
        case isTrue => rfl
        case isFalse => exact head ▸ rfl

/-- So 257 levels are enough for any chain of interpreters. -/
theorem processExec_levels (room : argv.length < 1073741824) (enough : 256 < argv.length + depth)
    (some : 0 < depth) (deeper : depth ≤ more) :
    processExec env more p f argv envp = processExec env depth p f argv envp := by
  induction depth generalizing more f argv with
  | zero => omega
  | succ depth ih =>
    obtain ⟨more, rfl⟩ : ∃ n, more = n + 1 := ⟨more - 1, by omega⟩
    by_cases script : IsScript env p.cred f
    · rw [processExec_script script room, processExec_script script room]
      cases passed : processExecSh env p.cred f argv with
      | none => rfl
      | some r =>
        cases r with
        | error e => rfl
        | ok vector =>
          obtain ⟨_, _⟩ := processExecSh_grows passed
          simp only [Option.bind_some]
          cases env.openFile p.cred (vector.headD []) with
          | error e => rfl
          | ok g =>
            have fits : vector.length < 1073741824 := by omega
            have left : 256 < vector.length + depth := by omega
            exact ih fits left (by omega) (by omega)
    · rw [processExec, processExec]
      cases first : vfsRead p.cred f 2 0 with
      | error e => rfl
      | ok two =>
        have mark : execBuffer env two 2 ≠ [0x23, 0x21] := fun mark => script ⟨two, first, mark⟩
        simp only [mark, if_false]

/-- To execute a script is to execute the last interpreter of its chain. -/
theorem processExec_chain {call : ExecFile × List (List UInt8)} {calls : List _}
    (chain : (call :: calls).IsChain (Starts env p.cred)) (room : call.2.length < 1073741824) :
    processExec env (depth + calls.length) p call.1 call.2 envp =
      processExec env depth p (calls.getLastD call).1 (calls.getLastD call).2 envp := by
  induction calls generalizing call with
  | nil => rfl
  | cons next calls ih =>
    obtain ⟨⟨script, passed, opened⟩, rest⟩ := List.isChain_cons_cons.1 chain
    have few := (processExecSh_grows passed).2
    rw [List.length_cons, ← Nat.add_assoc, processExec_script script room, passed]
    simpa only [Option.bind_some, opened, List.getLastD_cons] using ih rest (by omega)

end Chain

section Passed

variable {env : ExecEnv} {c : Credentials} {f : ExecFile} {bytes line : List UInt8}
  {argv : List (List UInt8)}

/-- The first line of what is read. -/
def firstLine (bytes : List UInt8) : List UInt8 := bytes.takeWhile fun b => b ≠ ch '\n'

/-- The string in the buffer, up to a newline. -/
def bufferLine (env : ExecEnv) (bytes : List UInt8) : List UInt8 :=
  (execBuffer env bytes 127).takeWhile fun b => ¬(b = 10 ∨ b = 0)

/-- The accesses to the buffer and the vector are inside of them, the vector that is passed on is
the tokens of the first line and `argv`, and no chain of interpreters goes on for ever. -/
structure ScriptRuns (env : ExecEnv) (c : Credentials) (f : ExecFile) (bytes : List UInt8)
    (argv : List (List UInt8)) : Prop where
  inside : processExecSh env c f argv ≠ none
  passed : ∀ vector, processExecSh env c f argv = some (.ok vector) →
    vector = tokens isspace (firstLine bytes) ++ argv
  ends : Acc (fun next call => Starts env c call next) (f, argv)

/-- The buffer has an end of the line and the vector room for `argv`. If it also has room for the
words, then the string in the buffer is the first line, and a word ends it. -/
structure PlainScript (env : ExecEnv) (bytes : List UInt8) (argv : List (List UInt8)) : Prop where
  few : argv.length ≤ 255
  ended : ∃ b ∈ execBuffer env bytes 127, b = 10 ∨ b = 0
  line : argv.length + (scriptWords (bufferLine env bytes)).length ≤ 255 →
    bufferLine env bytes = firstLine bytes ∧ endsInWord (firstLine bytes) = true

theorem hashbangLine_ended (ended : ∃ b ∈ execBuffer env bytes 127, b = 10 ∨ b = 0) :
    hashbangLine (execBuffer env bytes 127) = some (bufferLine env bytes) := by
  rw [hashbangLine, if_pos (by simpa using ended)]
  rfl

/-- The bytes behind a short read come from the stack. -/
theorem execBuffer_append (short : bytes.length ≤ 127) :
    ∃ junk, execBuffer env bytes 127 = bytes ++ junk := by
  refine ⟨(execBuffer env bytes 127).drop bytes.length, ?_⟩
  have front : (execBuffer env bytes 127).take bytes.length = bytes := by
    apply List.ext_getElem
    · simp [execBuffer, short]
    · intro i _ lt'
      simp [execBuffer, List.getD_eq_getElem?_getD, List.getElem?_eq_getElem lt']
  rw [← List.take_append_drop bytes.length (execBuffer env bytes 127), front]
  simp

/-- A line that is cut at a zero byte has lost it, and one with bytes from the stack has more of
some word, or no word at its end. -/
theorem line_of_word_bytes {junk : List UInt8}
    (same : ((bytes ++ junk).takeWhile fun b => ¬(b = 10 ∨ b = 0)).filter (fun b => !isspace b) =
      (firstLine bytes).filter fun b => !isspace b)
    (last : endsInWord ((bytes ++ junk).takeWhile fun b => ¬(b = 10 ∨ b = 0)) = true) :
    ((bytes ++ junk).takeWhile fun b => ¬(b = 10 ∨ b = 0)) = firstLine bytes := by
  have noZero : ∀ b ∈ firstLine bytes, b ≠ 0 := by
    rintro b mem rfl
    have kept : 0 ∈ (firstLine bytes).filter fun b => !isspace b :=
      List.mem_filter.2 ⟨mem, by decide⟩
    rw [← same] at kept
    simpa using List.mem_takeWhile_imp (List.mem_filter.1 kept).1
  have inLine : ∀ b ∈ firstLine bytes, decide (¬(b = 10 ∨ b = 0)) = true := by
    intro b mem
    have newline : b ≠ 10 := by simpa [ch] using List.mem_takeWhile_imp mem
    simp [newline, noZero b mem]
  have cut : firstLine bytes ++ bytes.dropWhile (fun b => b ≠ ch '\n') = bytes :=
    List.takeWhile_append_dropWhile
  cases stop : bytes.dropWhile fun b => b ≠ ch '\n' with
  | nil =>
    rw [stop, List.append_nil] at cut
    rw [cut] at inLine same ⊢
    rw [List.takeWhile_append_of_pos inLine] at same last ⊢
    generalize junk.takeWhile (fun b => ¬(b = 10 ∨ b = 0)) = more at same last ⊢
    by_cases empty : more = []
    · rw [empty, List.append_nil]
    · have spaces : ∀ b ∈ more, isspace b = true := by simpa using same
      rw [endsInWord_append empty, endsInWord_spaces spaces] at last
      cases last
  | cons b =>
    have newline : b = 10 := by
      have head := List.head?_dropWhile_not (fun b => decide (b ≠ ch '\n')) bytes
      rw [stop] at head
      simpa [ch] using head
    rw [stop] at cut
    rw [← cut, List.append_assoc, cut, List.takeWhile_append_of_pos inLine]
    simp [newline]

/-- The words are the tokens of the first line only if the string is that line. -/
theorem words_of_first (short : bytes.length ≤ 127)
    (words : scriptWords (bufferLine env bytes) = tokens isspace (firstLine bytes)) :
    bufferLine env bytes = firstLine bytes ∧ endsInWord (firstLine bytes) = true := by
  obtain ⟨_, buffer⟩ := @execBuffer_append env bytes short
  rw [scriptWords_eq] at words
  have last : endsInWord (bufferLine env bytes) = true := by
    by_contra empty
    have mem : [] ∈ tokens isspace (firstLine bytes) := by
      rw [← words]
      simp [empty]
    exact nil_not_mem_tokens mem
  have same := congrArg List.flatten words
  rw [last, if_pos rfl, List.append_nil, flatten_tokens, flatten_tokens] at same
  have line : bufferLine env bytes = firstLine bytes := by
    unfold bufferLine at same last ⊢
    rw [buffer] at same last ⊢
    exact line_of_word_bytes same last
  exact ⟨line, line ▸ last⟩

theorem script_runs_iff (read : vfsRead c f 127 2 = .ok bytes) (short : bytes.length ≤ 127)
    (room : argv.length < 1073741824) :
    ScriptRuns env c f bytes argv ↔ PlainScript env bytes argv := by
  have vector : processExecSh env c f argv = execShVector (execBuffer env bytes 127) argv := by
    rw [processExecSh, read]
  rw [execShVector_eq (by simp [execBuffer]) room] at vector
  constructor
  case mp =>
    rintro ⟨inside, passed, -⟩
    have ended : ∃ b ∈ execBuffer env bytes 127, b = 10 ∨ b = 0 := by
      by_contra missing
      refine inside ?_
      rw [vector, hashbangLine, if_neg (by simpa using missing)]
      rfl
    rw [hashbangLine_ended ended, Option.bind_some] at vector
    have few : argv.length ≤ 255 := by
      by_contra many
      exact inside (by rw [vector, if_pos (by omega)])
    refine ⟨few, ended, fun fits => words_of_first short ?_⟩
    rw [if_neg (by omega), if_neg (by omega)] at vector
    exact List.append_cancel_right (passed _ vector)
  case mpr =>
    rintro ⟨few, ended, line⟩
    rw [hashbangLine_ended ended, Option.bind_some, if_neg (by omega)] at vector
    split_ifs at vector with full
    · refine ⟨by simp [vector], fun v passed => ?_, (interpreters_end env c).apply _⟩
      rw [vector] at passed
      cases passed
    · obtain ⟨same, last⟩ := line (by omega)
      refine ⟨by simp [vector], fun v passed => ?_, (interpreters_end env c).apply _⟩
      rw [vector] at passed
      cases passed
      rw [scriptWords_eq, same, last]
      simp

end Passed

/-- A script of these bytes behind the `#!`. -/
def scriptFile (bytes : List UInt8) : ExecFile where
  attrs := ⟨0o100755, 0, 0, bytes.length + 2, 0⟩
  ops len offset := .ok (((0x23 :: 0x21 :: bytes).drop offset.toNat).take len)

/-- `/sh` and a newline. -/
def shellLine : List UInt8 := [0x2f, 0x73, 0x68, 10]

/-- The script with this line and one argument. -/
theorem script_runs_iff_shell :
    ScriptRuns sampleCall.env ⟨⟨0, 0, 0⟩, ⟨0, 0, 0⟩⟩ (scriptFile shellLine) shellLine [[0x61]] ∧
    processExecSh sampleCall.env ⟨⟨0, 0, 0⟩, ⟨0, 0, 0⟩⟩ (scriptFile shellLine) [[0x61]] =
      some (.ok [[0x2f, 0x73, 0x68], [0x61]]) := by
  have read : vfsRead ⟨⟨0, 0, 0⟩, ⟨0, 0, 0⟩⟩ (scriptFile shellLine) 127 2 = .ok shellLine := by
    decide +kernel
  refine ⟨(script_runs_iff read (by decide) (by decide)).2 ⟨by decide, ⟨10, ?_, .inl rfl⟩, ?_⟩, ?_⟩
  · decide +kernel
  · intro
    decide +kernel
  · decide +kernel

/-- Here `/sh` is a script too, with the interpreter `/i`. -/
def scriptShell : ExecEnv :=
  { sampleCall.env with
    openFile := fun _ path =>
      .ok (if path = [0x2f, 0x73, 0x68] then scriptFile [0x2f, 0x69, 10] else sampleImage) }

/-- A script of `/sh` and one argument comes to the program `/i`. -/
theorem processExec_chain_two :
    processExec scriptShell 6 (sampleProcess ⟨⟨0, 0, 0⟩, ⟨0, 0, 0⟩⟩) (scriptFile shellLine)
        [[0x61]] [] =
      processExec scriptShell 4 (sampleProcess ⟨⟨0, 0, 0⟩, ⟨0, 0, 0⟩⟩) sampleImage
        [[0x2f, 0x69], [0x2f, 0x73, 0x68], [0x61]] [] := by
  have first : Starts scriptShell ⟨⟨0, 0, 0⟩, ⟨0, 0, 0⟩⟩ (scriptFile shellLine, [[0x61]])
      (scriptFile [0x2f, 0x69, 10], [[0x2f, 0x73, 0x68], [0x61]]) :=
    ⟨⟨[0x23, 0x21], by decide +kernel, by decide +kernel⟩, by decide +kernel, rfl⟩
  have second : Starts scriptShell ⟨⟨0, 0, 0⟩, ⟨0, 0, 0⟩⟩
      (scriptFile [0x2f, 0x69, 10], [[0x2f, 0x73, 0x68], [0x61]])
      (sampleImage, [[0x2f, 0x69], [0x2f, 0x73, 0x68], [0x61]]) :=
    ⟨⟨[0x23, 0x21], by decide +kernel, by decide +kernel⟩, by decide +kernel, rfl⟩
  exact @processExec_chain _ (sampleProcess ⟨⟨0, 0, 0⟩, ⟨0, 0, 0⟩⟩) [] 4 _ _
    (.cons_cons first (.cons_cons second (.singleton _))) (by decide)

/-- A first line of 127 letters is read beyond the buffer, and a blank behind the name of an
interpreter becomes an argument. -/
theorem script_reads_past_buffer :
    processExecSh sampleCall.env ⟨⟨0, 0, 0⟩, ⟨0, 0, 0⟩⟩ (scriptFile (List.replicate 127 0x61)) [] =
      none ∧
    processExecSh sampleCall.env ⟨⟨0, 0, 0⟩, ⟨0, 0, 0⟩⟩ (scriptFile [0x61, 0x20, 10]) [] =
      some (.ok [[0x61], []]) ∧
    ¬ScriptRuns sampleCall.env ⟨⟨0, 0, 0⟩, ⟨0, 0, 0⟩⟩ (scriptFile (List.replicate 127 0x61))
      (List.replicate 127 0x61) [] := by
  have outside : processExecSh sampleCall.env ⟨⟨0, 0, 0⟩, ⟨0, 0, 0⟩⟩
      (scriptFile (List.replicate 127 0x61)) [] = none := by decide +kernel
  exact ⟨outside, by decide +kernel, fun runs => runs.inside outside⟩

end Os0

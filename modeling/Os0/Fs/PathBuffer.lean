import Os0.Fs.PathAgree

/-! The two buffers of `vfs_path_resolve` (`fs/path.c`): which of their bytes it reads and writes.
A string ends with a null byte, behind its characters. -/
namespace Os0

open List

namespace Vfs

variable {v : Vfs} {result path : List Char} {c : Name} {stack comps : List Name}

/-- What `strdup` or `kmalloc` is asked for, for each of the buffers. -/
def allocated (v : Vfs) (path : List Char) : Nat :=
  if path.head? = some '/' then path.length + 1 else v.cwdpath.length + path.length + 2

/-- The bytes of `buffer` in a round for the component at `bufptr`: `strchr` reads it and the byte
behind it, which becomes its end; `strcmp`, `strcpy` and `strlen` read no more. -/
def bufferBytes (bufptr : Nat) (c : Name) : List Nat := (List.range (c.length + 1)).map (bufptr + ·)

/-- The bytes of `result` in a round. For `..`, `strrchr` reads the whole string, the loop behind
it bytes of the string, and the new end is written. -/
def resultBytes (result : List Char) (c : Name) : List Nat :=
  if skipped c then []
  else if c = dotdot then List.range (result.length + 1) ++ [(cutLast result).length]
  else (List.range (c.length + 2)).map (result.length + ·)

/-- The bytes of both buffers that the loop and the end of the function use. -/
def roundBytes (bufptr : Nat) (result : List Char) : List Name → List Nat × List Nat
  | [] => ([], if result ≠ ['/'] then [result.length - 1] else [])
  | c :: rest =>
    let later := roundBytes (bufptr + c.length + 1) (resolveStep result c) rest
    (bufferBytes bufptr c ++ later.1, resultBytes result c ++ later.2)

/-- The bytes that `vfs_path_resolve` uses of `buffer` and `result`. Both are filled with an
absolute path, and only `buffer` with another one. -/
def touched (v : Vfs) (path : List Char) : List Nat × List Nat :=
  let filled := List.range (v.allocated path)
  let rounds := roundBytes 0 ['/'] (v.components path)
  (filled ++ rounds.1, (if path.head? = some '/' then filled else []) ++ [0, 1] ++ rounds.2)

/-- The room that names take, with a separator each. -/
def room (names : List Name) : Nat := (names.flatMap fun n => n ++ ['/']).length

variable {bufptr i : Nat}

theorem room_nil : room [] = 0 := rfl

theorem room_append (names others : List Name) : room
    (names ++ others) = room names + room others := by
  rw [room, flatMap_append, length_append, room, room]

theorem room_cons (c : Name) (names : List Name) :
    room (c :: names) = c.length + 1 + room names := by
  rw [room, flatMap_cons, length_append, length_append, room]
  rfl

theorem length_text : (text stack).length = room stack + 1 := by
  simp [text, room, length_flatMap, sum_reverse]

theorem room_splitOn (path : List Char) : room (path.splitOn '/') = path.length + 1 := by
  have whole := @Split.dropLast_flatMap _ '/' _ (splitOn_ne_nil '/' path)
  have cut : room (path.splitOn '/') - 1 = path.length := by
    rw [room, ← length_dropLast, whole, intercalate_splitOn]
  cases parts : path.splitOn '/' with
  | nil => exact absurd parts (splitOn_ne_nil '/' path)
  | cons c =>
    rw [parts, room_cons] at cut
    rw [room_cons]
    omega

theorem room_components : room (v.components path) = v.allocated path := by
  unfold components allocated
  split
  · exact room_splitOn path
  · rw [room_splitOn]
    simp
    omega

/-- The components that name an entry of a directory. -/
def named (comps : List Name) : List Name := comps.filter fun c => ordinary c

/-- The room of the components that name nothing. -/
def slack (comps : List Name) : Nat := room (comps.filter fun c => !ordinary c)

theorem room_parts (comps : List Name) : room comps = room (named comps) + slack comps := by
  have perm := filter_append_perm (fun c => ordinary c) comps
  rw [named, slack, ← room_append]
  exact (perm.flatMap_right _).length_eq.symm

theorem room_push (stack : List Name) (c : Name) :
    room (push stack c) ≤ room stack + room (named [c]) := by
  unfold push
  split
  · omega
  split
  · cases stack with
    | nil => exact Nat.zero_le _
    | cons n stack =>
      rw [tail_cons, room_cons]
      omega
  · have name : named [c] = [c] := by simp_all [named, ordinary]
    rw [name, room_cons, room_cons, room_nil]
    omega

theorem buffer_lt (mem : i ∈ (roundBytes bufptr result comps).1) : i < bufptr + room comps := by
  induction comps generalizing bufptr result with
  | nil => simp [roundBytes] at mem
  | cons c comps ih =>
    rcases mem_append.1 mem with here | later
    · obtain ⟨k, low, rfl⟩ := mem_map.1 here
      have := mem_range.1 low
      rw [room_cons]
      omega
    · have less := ih later
      rw [room_cons]
      omega

/-- No byte behind the room of the names is used. -/
theorem result_le (plain : ∀ n ∈ stack, '/' ∉ n) (new : ∀ c ∈ comps, '/' ∉ c)
    (mem : i ∈ (roundBytes bufptr (text stack) comps).2) :
    i ≤ 1 + room stack + room (named comps) := by
  induction comps generalizing bufptr stack with
  | nil =>
    simp only [roundBytes, length_text] at mem
    split at mem <;> simp at mem
    omega
  | cons c comps ih =>
    obtain ⟨first, rest⟩ := forall_mem_cons.1 new
    have more := room_push stack c
    have all : room (named (c :: comps)) = room (named [c]) + room (named comps) := by
      rw [← room_append, named, named, named, ← filter_append, singleton_append]
    simp only [roundBytes, resolveStep_text plain] at mem
    rcases mem_append.1 mem with here | later
    · unfold resultBytes at here
      split at here
      · cases here
      case isFalse name =>
        split at here
        case isTrue up =>
          have cut : resolveStep (text stack) c = _ := resolveStep_text plain
          simp only [resolveStep, if_neg name, if_pos up] at cut
          simp only [cut, length_text, mem_append, mem_range, mem_singleton] at here
          omega
        case isFalse _ =>
          have self : named [c] = [c] := by simp_all [named, ordinary]
          rw [self, room_cons, room_nil] at all
          simp only [length_text, mem_map, mem_range] at here
          obtain ⟨k, _, rfl⟩ := here
          omega
    · have less := ih (push_all plain fun _ => first) rest later
      omega

/-- Without `.` and `..`, the byte behind the names is used. -/
theorem result_mem (plain : ∀ c ∈ comps, ordinary c = true ∨ c = []) (some : named comps ≠ []) :
    1 + room stack + room (named comps) ∈ (roundBytes bufptr (text stack) comps).2 := by
  induction comps generalizing bufptr stack with
  | nil => exact absurd rfl some
  | cons c comps ih =>
    obtain ⟨first, rest⟩ := forall_mem_cons.1 plain
    refine mem_append.2 ?_
    rcases first with name | rfl
    · have self : named (c :: comps) = c :: named comps := filter_cons_of_pos name
      have pushed : resolveStep (text stack) c = text (c :: stack) := by
        simp_all [resolveStep, ordinary, text_cons]
      rw [self, room_cons, pushed]
      by_cases last : named comps = []
      · have here : resultBytes (text stack) c =
            (range (c.length + 2)).map ((text stack).length + ·) := by
          simp_all [resultBytes, ordinary]
        rw [here, last, length_text, room_nil]
        exact .inl (mem_map.2 ⟨c.length + 1, by simp, by omega⟩)
      · have eq : 1 + room stack + (c.length + 1 + room (named comps)) =
            1 + room (c :: stack) + room (named comps) := by
          rw [room_cons]
          omega
        rw [eq]
        exact .inr (ih rest last)
    · exact .inr (ih rest some)

/-- `vfs_path_resolve` stays in its buffers for the paths in which the components that name
nothing take two bytes or more. -/
theorem path_resolve_in_bounds_iff (v : Vfs) (path : List Char) :
    ((∀ i ∈ (v.touched path).1, i < v.allocated path) ∧
      ∀ i ∈ (v.touched path).2, i < v.allocated path) ↔ 2 ≤ slack (v.components path) := by
  have whole := room_parts (v.components path)
  rw [room_components] at whole
  have two : 2 ≤ v.allocated path := by
    unfold allocated
    split
    case isTrue slash =>
      obtain ⟨rest, rfl⟩ := List.head?_eq_some_iff.1 slash
      simp
    case isFalse => omega
  constructor
  · rintro ⟨-, inside⟩
    by_contra few
    have plain : ∀ c ∈ v.components path, ordinary c = true ∨ c = [] := by
      intro c mem
      by_contra other
      obtain ⟨unnamed, long⟩ := not_or.1 other
      have lost : c ∈ (v.components path).filter fun c => !ordinary c := by simp [mem, unnamed]
      obtain ⟨_, rest, eq⟩ := List.append_of_mem lost
      have := List.length_pos_of_ne_nil long
      rw [slack, eq, room_append, room_cons] at few
      omega
    have some : named (v.components path) ≠ [] := by
      intro none
      rw [none, room_nil] at whole
      omega
    have used : 1 + room [] + room (named (v.components path)) < v.allocated path :=
      inside _ (List.mem_append_right _ (result_mem plain some))
    omega
  · intro enough
    have new : ∀ c ∈ v.components path, '/' ∉ c := fun c mem => Split.sep_not_mem mem
    refine ⟨fun i mem => ?_, fun i mem => ?_⟩
    · rcases List.mem_append.1 mem with filled | later
      · exact List.mem_range.1 filled
      · simpa [room_components] using buffer_lt later
    · rcases List.mem_append.1 mem with before | later
      · split at before <;> simp at before <;> omega
      · have less : i ≤ 1 + room [] + room (named (v.components path)) := result_le nofun new later
        rw [room_nil] at less
        omega

/-- The result for `/a` is written one byte behind its buffer. -/
theorem path_resolve_overrun :
    ¬((∀ i ∈ (mounted.touched "/a".toList).1, i < mounted.allocated "/a".toList) ∧
      ∀ i ∈ (mounted.touched "/a".toList).2, i < mounted.allocated "/a".toList) := by
  decide

end Vfs

end Os0

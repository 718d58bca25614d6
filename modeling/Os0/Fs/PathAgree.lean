import Os0.Fs.Path
import Os0.Lib.Split

/-! Rewriting a path and walking along it. The components that remain of a path are a stack of
names; the walk stands at the directory that the names lead to, as long as `..` does not meet a
mount. -/
namespace Os0

open List Split Bool

namespace Vfs

variable {v : Vfs} {dir inode up last : VFSInode} {c n : Name} {stack names comps : List Name}
  {path : List Char}

/-! ## The text of a stack of names -/

/-- What remains of the components of a path, the last name first. -/
def push (stack : List Name) (c : Name) : List Name :=
  if skipped c then stack else if c = dotdot then stack.tail else c :: stack

/-- The path that `vfs_path_resolve` holds for a stack of names. -/
def text (stack : List Name) : List Char := '/' :: (stack.reverse.flatMap fun n => n ++ ['/'])

theorem text_cons : text (n :: stack) = text stack ++ n ++ ['/'] := by
  simp [text]

theorem text_reverse (stack : List Name) : ∃ before, (text stack).reverse = '/' :: before := by
  cases stack with
  | nil => exact ⟨[], rfl⟩
  | cons n stack => exact ⟨(text stack ++ n).reverse, by simp [text_cons]⟩

theorem dropWhile_name (plain : '/' ∉ n) (rest : List Char) :
    (n ++ '/' :: rest).dropWhile (· ≠ '/') = '/' :: rest := by
  induction n with
  | nil => simp
  | cons a n ih =>
    obtain ⟨ne, plain⟩ := not_or.1 (mt mem_cons.2 plain)
    simpa [Ne.symm ne] using ih plain

theorem cutLast_text (plain : '/' ∉ n) : cutLast (text (n :: stack)) = text stack := by
  obtain ⟨before, eq⟩ := text_reverse stack
  have back : (text (n :: stack)).reverse = '/' :: (n.reverse ++ '/' :: before) := by
    simp [text_cons, eq]
  have next := dropWhile_name (by simpa using plain : '/' ∉ n.reverse) before
  unfold cutLast
  rw [back, dropWhile_cons_of_neg (by simp)]
  cases rest : n.reverse ++ '/' :: before with
  | nil => simp at rest
  | cons a =>
    rw [rest] at next
    simp only [next, ← eq, reverse_reverse]

theorem resolveStep_text (plain : ∀ n ∈ stack, '/' ∉ n) :
    resolveStep (text stack) c = text (push stack c) := by
  unfold resolveStep push
  split
  · rfl
  split
  · cases stack with
    | nil => rfl
    | cons n stack => exact cutLast_text (plain n (mem_cons_self ..))
  · exact text_cons.symm

theorem push_all {P : Name → Prop} (all : ∀ n ∈ stack, P n) (new : ordinary c = true → P c) :
    ∀ n ∈ push stack c, P n := by
  unfold push
  split
  · exact all
  case isFalse _ =>
    split
    · exact fun n mem => all n (mem_of_mem_tail mem)
    · exact forall_mem_cons.2 ⟨new (by simp_all [ordinary]), all⟩

theorem foldl_all {P : Name → Prop} (all : ∀ n ∈ stack, P n)
    (new : ∀ c ∈ comps, ordinary c = true → P c) : ∀ n ∈ comps.foldl push stack, P n := by
  induction comps generalizing stack with
  | nil => exact all
  | cons c comps ih =>
    obtain ⟨first, rest⟩ := forall_mem_cons.1 new
    exact ih (push_all all first) rest

theorem foldl_plain (plain : ∀ n ∈ stack, '/' ∉ n) (new : ∀ c ∈ comps, '/' ∉ c) :
    ∀ n ∈ comps.foldl push stack, '/' ∉ n :=
  foldl_all plain fun c mem _ => new c mem

theorem resolve_text (plain : ∀ n ∈ stack, '/' ∉ n) (new : ∀ c ∈ comps, '/' ∉ c) :
    comps.foldl resolveStep (text stack) = text (comps.foldl push stack) := by
  induction comps generalizing stack with
  | nil => rfl
  | cons c comps ih =>
    obtain ⟨first, rest⟩ := forall_mem_cons.1 new
    simp only [foldl_cons, resolveStep_text plain]
    exact ih (push_all plain fun _ => first) rest

/-- The result of `vfs_path_resolve` for a stack of names. -/
def absolute (stack : List Name) : List Char := '/' :: ['/'].intercalate stack.reverse

theorem finish_text :
    (if text stack ≠ ['/'] ∧ (text stack).getLast? = some '/' then (text stack).dropLast
      else text stack) = absolute stack := by
  cases stack with
  | nil => simp [text, absolute]
  | cons n stack =>
    have more : (n :: stack).reverse ≠ [] := by simp
    have ends : (text (n :: stack)).getLast? = some '/' := by simp [text_cons]
    have long : text (n :: stack) ≠ ['/'] := by simp [text]
    rw [if_pos ⟨long, ends⟩, absolute, ← dropLast_flatMap more, text,
      dropLast_cons_of_ne_nil (by simp)]

/-! ## Walks -/

theorem vfsLookup_ok (found : v.vfsLookup dir c = .ok inode) :
    v.isDir dir = true ∧ v.entry dir c = .ok inode := by
  unfold vfsLookup at found
  split at found
  · cases found
  case isFalse isDir =>
    split at found
    · cases found
    · exact ⟨by simpa using isDir, found⟩

theorem walk_skip (skip : skipped c = true) : v.walk dir (c :: comps) = v.walk dir comps := by
  simp [walk, skip]

theorem walk_entry (name : skipped c = false) (found : v.vfsLookup dir c = .ok inode)
    (followed : comps ≠ [] → v.isDir inode = true) :
    v.walk dir (c :: comps) = v.walk (v.cross inode) comps := by
  have passes : ¬(comps ≠ [] ∧ (!v.isDir inode) = true) := by
    rintro ⟨more, file⟩
    simp [followed more] at file
  simp only [walk, name, found, if_neg passes]
  rfl

theorem walk_cons_ok (name : skipped c = false) (walked : v.walk dir (c :: comps) = .ok inode) :
    ∃ next, v.vfsLookup dir c = .ok next ∧ (comps ≠ [] → v.isDir next = true) ∧
      v.walk (v.cross next) comps = .ok inode := by
  simp only [walk, name, false_eq_true, if_false] at walked
  split at walked
  · cases walked
  case h_2 next found =>
    split at walked
    · cases walked
    case isFalse passes =>
      refine ⟨next, found, fun more => ?_, walked⟩
      simpa [more] using passes

theorem splitOn_intercalate_walk (plain : ∀ n ∈ comps, '/' ∉ n) :
    v.walk dir ((['/'].intercalate comps).splitOn '/') = v.walk dir comps := by
  cases comps with
  | nil => simp [walk, skipped]
  | cons c comps => rw [splitOn_intercalate '/' plain (by simp)]

/-- The names lead from the root to `dir`; `last` is the entry that the last of them names, on
which a file system may be mounted. -/
inductive Reaches (v : Vfs) : List Name → VFSInode → VFSInode → Prop
  | root : Reaches v [] v.root (v.cross v.root)
  | step {stack : List Name} {last dir inode : VFSInode} {c : Name} :
      Reaches v stack last dir → (stack ≠ [] → v.isDir last = true) → ordinary c = true →
      v.vfsLookup dir c = .ok inode → Reaches v (c :: stack) inode (v.cross inode)

theorem skipped_of_ordinary (name : ordinary c = true) : skipped c = false := by
  simp only [ordinary, and_eq_true, not_eq_true'] at name
  exact name.1

theorem Reaches.walk_append (h : Reaches v stack last dir)
    (followed : comps ≠ [] → stack ≠ [] → v.isDir last = true) :
    v.walk (v.cross v.root) (stack.reverse ++ comps) = v.walk dir comps := by
  induction h generalizing comps with
  | root => rfl
  | @step stack last dir _ c _ isDir name found ih =>
    have next : v.walk (v.cross v.root) (stack.reverse ++ c :: comps) = v.walk dir (c :: comps) :=
      ih fun _ => isDir
    simp only [reverse_cons, append_assoc, singleton_append, next]
    exact walk_entry (skipped_of_ordinary name) found fun more => followed more (by simp)

theorem Reaches.walk (h : Reaches v stack last dir) :
    v.walk (v.cross v.root) stack.reverse = .ok dir := by
  have walked : v.walk (v.cross v.root) (stack.reverse ++ []) = v.walk dir [] :=
    h.walk_append fun none => absurd rfl none
  simpa [Vfs.walk] using walked

/-! ## Mounts -/

theorem cross_of_not_point (none : v.isMountPoint dir = false) : v.cross dir = dir := by
  have absent : v.mounts.find? (fun m => m.mntpoint = dir) = Option.none := by
    simpa [isMountPoint] using none
  simp [cross, absent]

theorem cross_of_point (point : v.isMountPoint dir = true) :
    ∃ m ∈ v.mounts, m.mntpoint = dir ∧ v.cross dir = m.root := by
  unfold cross
  cases found : v.mounts.find? fun m => m.mntpoint = dir with
  | none =>
    simp only [find?_eq_none] at found
    simp only [isMountPoint, any_eq_true] at point
    obtain ⟨m, mem, same⟩ := point
    exact absurd same (found m mem)
  | some m =>
    have same := find?_some found
    exact ⟨m, mem_of_find?_eq_some found, by simpa using same, rfl⟩

theorem cross_isMountRoot (point : v.isMountPoint dir = true) : v.isMountRoot
    (v.cross dir) = true := by
  obtain ⟨m, mem, -, eq⟩ := cross_of_point point
  simpa [isMountRoot, eq] using ⟨m, mem, rfl⟩

theorem cross_root_isRoot : v.cross v.root = v.root ∨ v.isMountRoot (v.cross v.root) = true := by
  cases point : v.isMountPoint v.root with
  | false => exact .inl (cross_of_not_point point)
  | true => exact .inr (cross_isMountRoot point)

section Rank

variable {rank : Nat → Nat} (ordered : ∀ m ∈ v.mounts, rank m.mntpoint.sb < rank m.root.sb)

include ordered

theorem rank_cross_of_point (point : v.isMountPoint dir = true) :
    rank dir.sb < rank (v.cross dir).sb := by
  obtain ⟨m, mem, rfl, eq⟩ := cross_of_point point
  rw [eq]
  exact ordered m mem

theorem rank_cross : rank dir.sb ≤ rank (v.cross dir).sb := by
  cases point : v.isMountPoint dir with
  | false => simp [cross_of_not_point point]
  | true => exact Nat.le_of_lt (rank_cross_of_point ordered point)

end Rank

/-- Where `..` is looked up, and where it leads. -/
def tameUp (v : Vfs) (stack : List Name) (dir up : VFSInode) : Bool :=
  (stack.length = 0 || !v.isMountRoot dir) && !v.isMountPoint up

/-- A tame `..` leads where the names without the last one lead. -/
theorem Reaches.leave (trees : v.Trees) (h : Reaches v stack last dir)
    (found : v.vfsLookup dir dotdot = .ok up) (tame : v.tameUp stack dir up = true) :
    ∃ last', Reaches v stack.tail last' (v.cross up) ∧ (stack.tail ≠ [] → v.isDir last' = true) := by
  obtain ⟨inside, free⟩ : (stack.length = 0 ∨ v.isMountRoot dir = false) ∧
      v.isMountPoint up = false := by
    simpa [tameUp] using tame
  have entry := (vfsLookup_ok found).2
  rw [cross_of_not_point free]
  cases h with
  | root =>
    rw [trees.root cross_root_isRoot entry]
    exact ⟨v.root, .root, fun more => absurd rfl more⟩
  | @step stack before _ _ c h isDir name lookup =>
    have same : v.cross last = last := by
      cases point : v.isMountPoint last with
      | false => exact cross_of_not_point point
      | true => simp [cross_isMountRoot point] at inside
    rw [same] at entry
    rw [trees.parent name (vfsLookup_ok lookup).2 entry]
    exact ⟨before, h, isDir⟩

/-- Any other `..` leads somewhere else. -/
theorem Reaches.leave_ne (trees : v.Trees) (ordered : v.MountsOrdered)
    (h : Reaches v stack last dir) (found : v.vfsLookup dir dotdot = .ok up)
    (wild : v.tameUp stack dir up = false) :
    ∃ last' parent, Reaches v stack.tail last' parent ∧ v.cross up ≠ parent := by
  obtain ⟨rank, ordered⟩ := ordered
  have entry := (vfsLookup_ok found).2
  have higher {parent : VFSInode} (less : rank parent.sb < rank (v.cross up).sb) :
      v.cross up ≠ parent := fun same => by simp [same] at less
  cases h with
  | root =>
    have same := trees.root cross_root_isRoot entry
    have point : v.isMountPoint up = true := by simpa [tameUp] using wild
    exact ⟨v.root, _, .root, higher (same ▸ rank_cross_of_point ordered point)⟩
  | @step stack before parent _ c h _ name lookup =>
    refine ⟨before, parent, h, higher ?_⟩
    have named := (vfsLookup_ok lookup).2
    cases point : v.isMountPoint last with
    | false =>
      -- The parent of an entry that is no mount point is a mount point itself.
      have same := cross_of_not_point point
      rw [same] at entry wild
      have mounted : v.isMountPoint up = true := by
        simpa [tameUp, trees.unnamed name named] using wild
      rw [trees.parent name named entry] at mounted ⊢
      exact rank_cross_of_point ordered mounted
    | true =>
      -- In the root of a mount `..` stays on its file system, above that of the parent.
      have stays := trees.root (.inr (cross_isMountRoot point)) entry
      have below : rank parent.sb < rank (v.cross last).sb := by
        rw [← trees.sb named]
        exact rank_cross_of_point ordered point
      rw [stays]
      exact Nat.lt_of_lt_of_le below (rank_cross ordered)

/-! ## Whole paths -/

theorem tame_skip (skip : skipped c = true) {depth : Nat} :
    v.tame dir depth (c :: comps) = v.tame dir depth comps := by
  simp [tame, skip]

theorem tame_entry (name : skipped c = false) (found : v.vfsLookup dir c = .ok inode) :
    v.tame dir stack.length (c :: comps) =
      ((c ≠ dotdot || v.tameUp stack dir inode) &&
        (comps ≠ [] && !v.isDir inode || v.tame (v.cross inode) (push stack c).length comps)) := by
  have length : (push stack c).length = if c = dotdot then stack.length - 1 else stack.length + 1 := by
    simp only [push, name, false_eq_true, if_false]
    split <;> simp
  rw [length]
  simp only [tame, name, found, tameUp, false_eq_true, if_false]

theorem push_ordinary (name : ordinary c = true) : push stack c = c :: stack := by
  simp only [ordinary, and_eq_true, not_eq_true', decide_eq_true_eq] at name
  simp [push, name]

theorem Reaches.next (trees : v.Trees) (h : Reaches v stack last dir)
    (followed : stack ≠ [] → v.isDir last = true) (name : skipped c = false)
    (found : v.vfsLookup dir c = .ok inode)
    (tame : (c ≠ dotdot || v.tameUp stack dir inode) = true) :
    ∃ last', Reaches v (push stack c) last' (v.cross inode) ∧
      (v.isDir inode = true → push stack c ≠ [] → v.isDir last' = true) := by
  by_cases up : c = dotdot
  · subst up
    obtain ⟨last', reaches, isDir⟩ := h.leave trees found (by simpa using tame)
    exact ⟨last', reaches, fun _ => isDir⟩
  · have named : ordinary c = true := by simp [ordinary, name, up]
    rw [push_ordinary named]
    exact ⟨inode, .step h followed named found, fun isDir _ => isDir⟩

/-- A tame walk stands where the names that remain of its path lead. The components `rest` at
the end are skipped, and tell that the last name is that of a directory. -/
theorem Reaches.follow (trees : v.Trees) {rest : List Name} (skips : ∀ c ∈ rest, skipped c = true)
    (h : Reaches v stack last dir) (followed : comps ++ rest ≠ [] → stack ≠ [] → v.isDir last = true)
    (tame : v.tame dir stack.length (comps ++ rest) = true)
    (walked : v.walk dir (comps ++ rest) = .ok inode) :
    ∃ last', Reaches v (comps.foldl push stack) last' inode ∧
      (rest ≠ [] → comps.foldl push stack ≠ [] → v.isDir last' = true) := by
  induction comps generalizing stack last dir with
  | nil =>
    have stays : ∀ {rest : List Name}, (∀ c ∈ rest, skipped c = true) →
        v.walk dir rest = .ok inode → dir = inode := by
      intro rest skips walked
      induction rest with
      | nil => simpa [Vfs.walk] using walked
      | cons c rest ih =>
        obtain ⟨first, skips⟩ := forall_mem_cons.1 skips
        rw [walk_skip first] at walked
        exact ih skips walked
    obtain rfl := stays skips walked
    exact ⟨last, h, followed⟩
  | cons c comps ih =>
    cases skip : skipped c with
    | true =>
      have same : push stack c = stack := by simp [push, skip]
      rw [cons_append, tame_skip skip] at tame
      rw [cons_append, walk_skip skip] at walked
      rw [foldl_cons, same]
      exact ih h (fun _ => followed (by simp)) tame walked
    | false =>
      obtain ⟨_, found, isDir, walked⟩ := walk_cons_ok skip walked
      rw [cons_append, tame_entry skip found, and_eq_true] at tame
      obtain ⟨here, later⟩ := tame
      obtain ⟨last', reaches, isDir'⟩ := h.next trees (followed (by simp)) skip found here
      refine ih reaches (fun more => isDir' (isDir more)) ?_ walked
      by_cases more : comps ++ rest = []
      · simp [more, Vfs.tame]
      · simpa [isDir more] using later

/-- If the names that remain of every leading part lead where the walk stands, the walk is
tame. -/
theorem Reaches.tame (trees : v.Trees) (ordered : v.MountsOrdered) (h : Reaches v stack last dir)
    (followed : comps ≠ [] → stack ≠ [] → v.isDir last = true)
    (agree : ∀ k inode, v.walk dir (comps.take k) = .ok inode →
      v.walk (v.cross v.root) ((comps.take k).foldl push stack).reverse = .ok inode) :
    v.tame dir stack.length comps = true := by
  induction comps generalizing stack last dir with
  | nil => rfl
  | cons c comps ih =>
    cases skip : skipped c with
    | true =>
      have same : push stack c = stack := by simp [push, skip]
      rw [tame_skip skip]
      refine ih h (fun _ => followed (by simp)) fun k inode walked => ?_
      have agree := agree (k + 1) inode
      rw [take_succ_cons, walk_skip skip, foldl_cons, same] at agree
      exact agree walked
    | false =>
      cases found : v.vfsLookup dir c with
      | error e => simp [Vfs.tame, skip, found]
      | ok inode =>
        have here : (c ≠ dotdot || v.tameUp stack dir inode) = true := by
          by_contra wild
          obtain ⟨rfl, crossed⟩ : c = dotdot ∧ v.tameUp stack dir inode = false := by
            simpa using wild
          obtain ⟨last', _, reaches, ne⟩ := h.leave_ne trees ordered found crossed
          have step : v.walk dir [dotdot] = .ok (v.cross inode) :=
            walk_entry skip found (fun more => absurd rfl more)
          have same := (agree 1 _ step).symm.trans reaches.walk
          exact ne (Except.ok.inj same)
        obtain ⟨last', reaches, isDir'⟩ := h.next trees (followed (by simp)) skip found here
        rw [tame_entry skip found, here, Bool.true_and]
        by_cases stops : comps ≠ [] ∧ v.isDir inode = false
        · simp [stops]
        · have isDir : comps ≠ [] → v.isDir inode = true := by
            intro more
            simpa [more] using stops
          rw [ih reaches (fun more => isDir' (isDir more)), Bool.or_true]
          intro k target walked
          have agree := agree (k + 1) target
          rw [take_succ_cons, walk_entry skip found, foldl_cons] at agree
          · exact agree walked
          · intro more
            exact isDir fun none => more (by simp [none])

theorem tame_take {depth : Nat} (tame : v.tame dir depth comps = true) (k : Nat) :
    v.tame dir depth (comps.take k) = true := by
  induction comps generalizing dir depth k with
  | nil => simp [Vfs.tame]
  | cons c comps ih =>
    cases k with
    | zero => rfl
    | succ k =>
      rw [take_succ_cons]
      simp only [Vfs.tame] at tame ⊢
      split
      case isTrue skip =>
        rw [if_pos skip] at tame
        exact ih tame k
      case isFalse skip =>
        rw [if_neg skip] at tame
        split
        · rfl
        case h_2 _ found =>
          rw [found] at tame
          simp only [and_eq_true, or_eq_true] at tame ⊢
          obtain ⟨here, stops | later⟩ := tame
          · refine ⟨here, ?_⟩
            by_cases none : comps.take k = []
            · simp [none, Vfs.tame]
            · exact .inl ⟨by simpa using none, stops.2⟩
          · exact ⟨here, .inr (ih later k)⟩

/-- A tame path: from the directory in which it starts, the names that remain lead to where the
walk ends. -/
theorem Reaches.agrees (trees : v.Trees) (h : Reaches v stack last dir)
    (followed : stack ≠ [] → v.isDir last = true) (tame : v.tame dir stack.length comps = true)
    (walked : v.walk dir comps = .ok inode) :
    v.walk (v.cross v.root) (comps.foldl push stack).reverse = .ok inode := by
  have whole : comps ++ [] = comps := append_nil comps
  obtain ⟨_, reaches, -⟩ := h.follow trees (nofun : ∀ c ∈ [], skipped c = true)
    (fun _ => followed) (whole ▸ tame) (whole ▸ walked)
  exact reaches.walk

/-! ## The current directory -/

theorem tame_of_plain {depth : Nat} (plain : dotdot ∉ comps) : v.tame dir depth comps = true := by
  induction comps generalizing dir depth with
  | nil => rfl
  | cons c comps ih =>
    obtain ⟨ne, plain⟩ := not_or.1 (mt mem_cons.2 plain)
    simp only [tame]
    split
    · exact ih plain
    split
    · rfl
    · simp [Ne.symm ne, ih plain]

theorem length_foldl_push (plain : dotdot ∉ comps) :
    (comps.foldl push stack).length = stack.length + (comps.filter fun c => !skipped c).length := by
  induction comps generalizing stack with
  | nil => rfl
  | cons c comps ih =>
    obtain ⟨ne, plain⟩ := not_or.1 (mt mem_cons.2 plain)
    rw [foldl_cons, ih plain]
    cases skip : skipped c with
    | true => simp [push, skip]
    | false =>
      simp [push, skip, Ne.symm ne]
      omega

/-- The names of the current directory, the last first. -/
def cwdNames (v : Vfs) : List Name := (v.cwdpath.splitOn '/').foldl push []

theorem CwdOk.depth (h : v.CwdOk) : v.cwdNames.length = v.cwdDepth := by
  simp [cwdNames, cwdDepth, length_foldl_push h.plain]

theorem CwdOk.reaches (h : v.CwdOk) (trees : v.Trees) :
    ∃ last, Reaches v v.cwdNames last v.cwd ∧ (v.cwdNames ≠ [] → v.isDir last = true) := by
  obtain ⟨path, eq⟩ : ∃ path, v.cwdpath = '/' :: path := head?_eq_some_iff.1 h.absolute
  have parts : v.cwdpath.splitOn '/' = [] :: path.splitOn '/' := by
    rw [eq, splitOn_cons]
    rfl
  have plain : dotdot ∉ path.splitOn '/' ++ [[]] := by
    have plain := h.plain
    rw [parts] at plain
    simpa [dotdot] using plain
  have walked : v.walk (v.cross v.root) (path.splitOn '/' ++ [[]]) = .ok v.cwd := by
    have agrees := h.agrees
    rw [eq] at agrees
    have cut : (path ++ ['/']).splitOn '/' = path.splitOn '/' ++ [[]] := by
      simpa using splitOn_append_sep path []
    rw [← cut]
    exact agrees
  obtain ⟨last, reaches, isDir⟩ := Reaches.root.follow trees (by simp [skipped])
    (fun _ none => absurd rfl none) (tame_of_plain plain) walked
  have names : v.cwdNames = (path.splitOn '/').foldl push [] := by
    rw [cwdNames, parts]
    rfl
  rw [names]
  exact ⟨last, reaches, isDir (by simp)⟩

/-! ## Strings -/

theorem foldl_push_parts (plain : ∀ c ∈ comps, '/' ∉ c) :
    ((['/'].intercalate comps).splitOn '/').foldl push stack = comps.foldl push stack := by
  cases comps with
  | nil => simp [push, skipped]
  | cons c comps => rw [splitOn_intercalate '/' plain (by simp)]

theorem vfsOpenFile_absolute (plain : ∀ n ∈ stack, '/' ∉ n) :
    v.vfsOpenFile (absolute stack) = v.walk (v.cross v.root) stack.reverse :=
  splitOn_intercalate_walk (by simpa using plain)

theorem vfsPathResolve_eq (buffer : List Char)
    (same : (if path.head? = some '/' then path else v.cwdpath ++ '/' :: path) = buffer) :
    v.vfsPathResolve path = absolute ((buffer.splitOn '/').foldl push []) := by
  have result : (buffer.splitOn '/').foldl resolveStep (text []) =
      text ((buffer.splitOn '/').foldl push []) :=
    resolve_text nofun fun c mem => sep_not_mem mem
  unfold vfsPathResolve
  rw [same]
  exact (congrArg (fun r : List Char =>
    if r ≠ ['/'] ∧ r.getLast? = some '/' then r.dropLast else r) result).trans finish_text

/-- The components of a path from the root on. -/
def components (v : Vfs) (path : List Char) : List Name :=
  (if path.head? = some '/' then path else v.cwdpath ++ '/' :: path).splitOn '/'

/-- The names that remain of a path, the last first. -/
def remaining (v : Vfs) (path : List Char) : List Name := (v.components path).foldl push []

theorem foldl_push_ordinary (names : ∀ c ∈ comps, ordinary c = true) :
    comps.foldl push stack = comps.reverse ++ stack := by
  induction comps generalizing stack with
  | nil => rfl
  | cons c comps ih =>
    obtain ⟨first, rest⟩ := forall_mem_cons.1 names
    rw [foldl_cons, push_ordinary first, ih rest, reverse_cons, append_assoc]
    rfl

theorem absolute_cons : absolute (n :: stack) = text stack ++ n := by
  rw [← finish_text, if_pos ⟨by simp [text], by simp [text_cons]⟩, text_cons, dropLast_concat]

/-- `vfs_path_resolve` returns the names that remain of the path. They are ordinary names, only the
path `/` ends with a slash, and the result is its own result. -/
theorem path_normalised (v : Vfs) (path : List Char) :
    v.vfsPathResolve path = '/' :: ['/'].intercalate (v.remaining path).reverse ∧
      (v.vfsPathResolve path = ['/'] ∨ ∃ names, v.vfsPathResolve path = '/' :: names ∧
        ∀ c ∈ names.splitOn '/', ordinary c = true) ∧
      ((v.vfsPathResolve path).getLast? = some '/' → v.vfsPathResolve path = ['/']) ∧
      v.vfsPathResolve (v.vfsPathResolve path) = v.vfsPathResolve path := by
  have plain : ∀ n ∈ v.remaining path, '/' ∉ n :=
    foldl_plain nofun fun c mem => Split.sep_not_mem mem
  have names : ∀ n ∈ v.remaining path, ordinary n = true := foldl_all nofun fun c _ name => name
  have eq : v.vfsPathResolve path = absolute (v.remaining path) := vfsPathResolve_eq _ rfl
  rw [eq]
  generalize v.remaining path = stack at plain names
  have plain' : ∀ n ∈ stack.reverse, '/' ∉ n := fun n mem => plain n (List.mem_reverse.1 mem)
  have names' : ∀ n ∈ stack.reverse, ordinary n = true :=
    fun n mem => names n (List.mem_reverse.1 mem)
  refine ⟨rfl, ?_, ?_, ?_⟩
  · cases stack with
    | nil => exact .inl rfl
    | cons n stack =>
      refine .inr ⟨_, rfl, ?_⟩
      rwa [List.splitOn_intercalate '/' plain' (by simp)]
  · cases stack with
    | nil => exact fun _ => rfl
    | cons n stack =>
      rw [absolute_cons, List.getLast?_append_of_ne_nil]
      · intro slash
        exact absurd (List.mem_of_getLast? slash) (plain n (List.mem_cons_self ..))
      · rintro rfl
        exact absurd (names [] (List.mem_cons_self ..)) (by decide)
  · have back : ((absolute stack).splitOn '/').foldl push [] = stack := by
      refine (foldl_push_parts plain').trans ?_
      rw [foldl_push_ordinary names', List.reverse_reverse]
      exact List.append_nil stack
    rw [vfsPathResolve_eq (absolute stack) (if_pos rfl), back]

/-- Both functions on the leading parts of a path, from the directory and the names it starts
with. -/
theorem agrees_iff (plain : ∀ n ∈ stack, '/' ∉ n) (new : ∀ c ∈ comps, '/' ∉ c)
    (walks : v.vfsOpenFile path = v.walk dir comps)
    (resolves : v.vfsPathResolve path = absolute (comps.foldl push stack)) :
    v.Agrees path ↔ ∀ inode, v.walk dir comps = .ok inode →
      v.walk (v.cross v.root) (comps.foldl push stack).reverse = .ok inode := by
  rw [Agrees, walks, resolves, vfsOpenFile_absolute (foldl_plain plain new)]

theorem agrees_absolute (new : ∀ c ∈ comps, '/' ∉ c) :
    v.Agrees ('/' :: ['/'].intercalate comps) ↔ ∀ inode,
      v.walk (v.cross v.root) comps = .ok inode →
        v.walk (v.cross v.root) (comps.foldl push []).reverse = .ok inode := by
  refine agrees_iff nofun new (splitOn_intercalate_walk new) ?_
  rw [vfsPathResolve_eq _ (if_pos rfl), splitOn_cons]
  exact congrArg absolute (foldl_push_parts new)

theorem vfsOpenFile_relative (relative : path.head? ≠ some '/') :
    v.vfsOpenFile path = v.walk (v.cross v.cwd) (path.splitOn '/') := by
  unfold vfsOpenFile
  split
  · simp at relative
  · rfl

theorem agrees_relative (new : ∀ c ∈ comps, '/' ∉ c)
    (relative : (['/'].intercalate comps).head? ≠ some '/') :
    v.Agrees (['/'].intercalate comps) ↔ ∀ inode, v.walk (v.cross v.cwd) comps = .ok inode →
      v.walk (v.cross v.root) (comps.foldl push v.cwdNames).reverse = .ok inode := by
  have plain : ∀ n ∈ v.cwdNames, '/' ∉ n :=
    foldl_plain nofun fun c mem => sep_not_mem mem
  refine agrees_iff plain new ?_ ?_
  · rw [← splitOn_intercalate_walk new, vfsOpenFile_relative relative]
  · rw [vfsPathResolve_eq _ (if_neg relative), splitOn_append_sep, foldl_append]
    exact congrArg absolute (foldl_push_parts new)

theorem leading_relative (relative : path.head? ≠ some '/') (k : Nat) :
    leading k path = ['/'].intercalate ((path.splitOn '/').take k) ∧
      (leading k path).head? ≠ some '/' := by
  have eq : leading k path = ['/'].intercalate ((path.splitOn '/').take k) := by
    unfold leading
    split
    · simp at relative
    · rfl
  refine ⟨eq, fun slash => relative ?_⟩
  obtain ⟨_, whole⟩ := intercalate_take '/' (path.splitOn '/') k
  rw [intercalate_splitOn, ← eq] at whole
  rw [← whole, head?_append, slash]
  rfl

theorem tamePath_relative (relative : path.head? ≠ some '/') :
    v.tamePath path = (!v.isMountPoint v.cwd && v.tame v.cwd v.cwdDepth (path.splitOn '/')) := by
  unfold tamePath
  split
  · simp at relative
  · rfl

/-- If no `..` on the way is looked up in the root of a mounted file system or leads to a mount
point, and a relative path starts in a directory on which nothing is mounted, then the rewritten
path leads to the same file as the path, for the path and all its leading parts. Where the mounts
are ordered, this holds only then. -/
theorem path_resolution_agrees (trees : v.Trees) (cwd : v.CwdOk) (path : List Char) :
    (v.tamePath path = true → ∀ n, v.Agrees (leading n path)) ∧
      (v.MountsOrdered → (∀ n, v.Agrees (leading n path)) → v.tamePath path = true) := by
  have plain (path : List Char) (n : Nat) : ∀ c ∈ (path.splitOn '/').take n, '/' ∉ c :=
    fun c mem => Split.sep_not_mem (List.mem_of_mem_take mem)
  by_cases absolute : path.head? = some '/'
  · obtain ⟨path, rfl⟩ : ∃ rest, path = '/' :: rest := List.head?_eq_some_iff.1 absolute
    simp only [leading, tamePath, agrees_absolute (plain path _)]
    constructor
    · intro tame n inode walked
      exact Reaches.root.agrees trees (fun none => absurd rfl none) (tame_take tame n) walked
    · intro ordered agree
      exact Reaches.root.tame trees ordered (fun _ none => absurd rfl none) agree
  · obtain ⟨_, reaches, isDir⟩ := cwd.reaches trees
    have agrees (n : Nat) := agrees_relative (v := v) (plain path n)
      ((leading_relative absolute n).1 ▸ (leading_relative absolute n).2)
    simp only [(leading_relative absolute _).1, agrees, tamePath_relative absolute, ← cwd.depth]
    rw [Bool.and_eq_true, Bool.not_eq_true']
    constructor
    · rintro ⟨free, tame⟩ n inode walked
      rw [cross_of_not_point free] at walked
      exact reaches.agrees trees isDir (tame_take tame n) walked
    · intro ordered agree
      have free : v.isMountPoint v.cwd = false := by
        obtain ⟨_, ordered⟩ := ordered
        by_contra point
        have here : v.walk (v.cross v.root) v.cwdNames.reverse = .ok (v.cross v.cwd) :=
          agree 0 _ rfl
        have same := Except.ok.inj (here.symm.trans reaches.walk)
        have above := rank_cross_of_point ordered (by simpa using point)
        simp [same] at above
      rw [cross_of_not_point free] at agree
      exact ⟨free, reaches.tame trees ordered (fun _ => isDir) agree⟩

/-- Two file systems: one is mounted on `/`, and one on its directory `/mnt`. -/
def mountedEntries : List (VFSInode × Name × VFSInode) :=
  [(⟨1, 2⟩, dotdot, ⟨1, 2⟩), (⟨1, 2⟩, "mnt".toList, ⟨1, 12⟩), (⟨1, 12⟩, dotdot, ⟨1, 2⟩),
    (⟨1, 2⟩, "usr".toList, ⟨1, 13⟩), (⟨1, 13⟩, dotdot, ⟨1, 2⟩), (⟨2, 2⟩, dotdot, ⟨2, 2⟩),
    (⟨2, 2⟩, "src".toList, ⟨2, 3⟩), (⟨2, 3⟩, dotdot, ⟨2, 2⟩)]

def mounted : Vfs where
  isDir _ := true
  permCheckRead _ := .ok ()
  entry dir c :=
    match mountedEntries.find? fun e => e.1 = dir ∧ e.2.1 = c with
    | some e => .ok e.2.2
    | none => .error .ENOENT
  mounts := [⟨⟨0, 0⟩, ⟨1, 2⟩⟩, ⟨⟨1, 12⟩, ⟨2, 2⟩⟩]
  root := ⟨0, 0⟩
  cwd := ⟨1, 13⟩
  cwdpath := "/usr".toList

theorem mounted_entry (found : mounted.entry dir c = .ok inode) :
    (dir, c, inode) ∈ mountedEntries := by
  simp only [mounted] at found
  split at found
  case h_1 e lookup =>
    obtain ⟨rfl, rfl⟩ : e.1 = dir ∧ e.2.1 = c := by simpa using find?_some lookup
    cases found
    exact mem_of_find?_eq_some lookup
  case h_2 => cases found

theorem mounted_trees : mounted.Trees where
  sb found := by
    have all : ∀ e ∈ mountedEntries, e.2.2.sb = e.1.sb := by decide
    exact all _ (mounted_entry found)
  parent name found up := by
    have all : ∀ e ∈ mountedEntries, ordinary e.2.1 = true → ∀ e' ∈ mountedEntries,
        e'.1 = e.2.2 → e'.2.1 = dotdot → e'.2.2 = e.1 := by decide
    exact all _ (mounted_entry found) name _ (mounted_entry up) rfl rfl
  root isRoot up := by
    have all : ∀ e ∈ mountedEntries, e.1 = mounted.root ∨ mounted.isMountRoot e.1 = true →
        e.2.1 = dotdot → e.2.2 = e.1 := by decide
    exact all _ (mounted_entry up) isRoot rfl
  unnamed name found := by
    have all : ∀ e ∈ mountedEntries, ordinary e.2.1 = true → mounted.isMountRoot e.2.2 = false := by
      decide
    exact all _ (mounted_entry found) name

theorem mounted_ordered : mounted.MountsOrdered := ⟨id, by decide⟩

theorem mounted_cwd : mounted.CwdOk := ⟨by decide, by decide, by decide⟩

/-- The path `../mnt/src/../.` from `/usr` leads to the root of the second file system. -/
theorem path_resolution_agrees_mnt :
    mounted.vfsOpenFile "../mnt/src/../.".toList = .ok ⟨2, 2⟩ ∧
      mounted.Agrees "../mnt/src/../.".toList := by
  refine ⟨by decide, ?_⟩
  have agree := (path_resolution_agrees mounted_trees mounted_cwd "../mnt/src/../.".toList).1
    (by decide) 5
  have whole : leading 5 "../mnt/src/../.".toList = "../mnt/src/../.".toList := by decide
  exact whole ▸ agree

/-- `/mnt/..` leads to the root of the second file system, and is rewritten to `/`. -/
theorem dotdot_stays_on_mount : ¬∀ v : Vfs, v.Trees → v.MountsOrdered → v.CwdOk →
    ∀ path, v.Agrees path := by
  intro claim
  have agrees := claim mounted mounted_trees mounted_ordered mounted_cwd "/mnt/..".toList ⟨2, 2⟩
  revert agrees
  decide

end Vfs

end Os0

import Os0.Process.Files

/-! Every entry of the table of open files counts the descriptors that point to it. -/
namespace Os0

open Refs Function List

namespace Files

/-- All descriptors of all processes. -/
@[irreducible] def slots : Finset (Nat × Nat) := Finset.range PROCESS_LIMIT ×ˢ Finset.range PROCESS_FILE_LIMIT

variable {k : Nat × Nat}

theorem mem_slots : k ∈ slots ↔ k.1 < PROCESS_LIMIT ∧ k.2 < PROCESS_FILE_LIMIT := by
  unfold slots
  rw [Finset.mem_product, Finset.mem_range, Finset.mem_range]

structure TableOk (s : Files) : Prop where
  counted : Counted slots s.files fun e => (s.table e).refcnt
  used : ∀ e < s.next, (s.table e).refcnt ≠ 0
  inside : ∀ k e, s.files k = some e → k ∈ slots ∧ e < PROCESS_SYS_FILE_LIMIT

/-- A process without a task has no descriptors. -/
def Idle (s : Files) : Prop := ∀ k, s.live k.1 = false → s.files k = none

/-- A step that moves neither descriptors nor what counts them. -/
structure SameSlots (s t : Files) : Prop where
  live : t.live = s.live
  files : t.files = s.files
  next : t.next = s.next
  refcnt : ∀ e, (t.table e).refcnt = (s.table e).refcnt

/-- A step that changes descriptors of the process `p` only. -/
structure Keeps (p : Nat) (s t : Files) : Prop where
  live : t.live = s.live
  off : ∀ k, k.1 ≠ p → t.files k = s.files k
  ok : TableOk s → TableOk t

variable {s t u : Files} {p fd e n : Nat}

theorem SameSlots.refl (s : Files) : SameSlots s s := ⟨rfl, rfl, rfl, fun _ => rfl⟩

theorem SameSlots.trans (h : SameSlots s t) (k : SameSlots t u) : SameSlots s u where
  live := k.live.trans h.live
  files := k.files.trans h.files
  next := k.next.trans h.next
  refcnt e := (k.refcnt e).trans (h.refcnt e)

theorem SameSlots.ok (h : SameSlots s t) (ok : TableOk s) : TableOk t where
  counted e := by
    rw [h.files]
    exact (h.refcnt e).trans (ok.counted e)
  used e lt := by
    rw [h.refcnt]
    exact ok.used e (h.next ▸ lt)
  inside k e points := ok.inside k e (h.files ▸ points)

theorem SameSlots.keeps (h : SameSlots s t) : Keeps p s t :=
  ⟨h.live, fun _ _ => by rw [h.files], h.ok⟩

theorem Keeps.refl (p : Nat) (s : Files) : Keeps p s s := (SameSlots.refl s).keeps

theorem Keeps.trans (h : Keeps p s t) (k : Keeps p t u) : Keeps p s u where
  live := k.live.trans h.live
  off j ne := (k.off j ne).trans (h.off j ne)
  ok := k.ok ∘ h.ok

theorem Keeps.idle (h : Keeps p s t) (idle : Idle s) (live : s.live p = true) : Idle t := by
  intro k dead
  rw [h.live] at dead
  have ne : k.1 ≠ p := by
    rintro rfl
    rw [live] at dead
    cases dead
  rw [h.off k ne]
  exact idle k dead

/-! ### References of inodes -/

section

variable (s : Files)

theorem addRef_same (i : Nat) (d : Int) : SameSlots s (s.addRef i d) :=
  ⟨rfl, rfl, rfl, fun _ => rfl⟩

theorem vfsRefInode_same (i : Option Nat) : SameSlots s (s.vfsRefInode i) := by
  cases i with
  | none => exact .refl s
  | some i => exact addRef_same s i 1

theorem vfsUnrefInode_eq (i : Nat) : ∃ pipes released,
    s.vfsUnrefInode (some i) = { s.addRef i (-1) with pipes := pipes, released := released } := by
  unfold vfsUnrefInode destroyInode
  dsimp only
  split
  · split
    · exact ⟨_, _, rfl⟩
    · split <;> exact ⟨_, _, rfl⟩
  · exact ⟨_, _, rfl⟩

section

variable (i : Option Nat)
include i

theorem vfsUnrefInode_same : SameSlots s (s.vfsUnrefInode i) := by
  cases i with
  | none => exact .refl s
  | some i =>
    obtain ⟨_, _, eq⟩ := vfsUnrefInode_eq s i
    rw [eq]
    exact ⟨rfl, rfl, rfl, fun _ => rfl⟩

theorem unref_fields : (s.vfsUnrefInode i).table = s.table ∧ (s.vfsUnrefInode i).cwd = s.cwd ∧
      (s.vfsUnrefInode i).fdflags = s.fdflags ∧ (s.vfsUnrefInode i).nextPipe = s.nextPipe := by
  cases i with
  | none => exact ⟨rfl, rfl, rfl, rfl⟩
  | some i =>
    obtain ⟨_, _, eq⟩ := vfsUnrefInode_eq s i
    rw [eq]
    exact ⟨rfl, rfl, rfl, rfl⟩

theorem unref_cwd : (s.vfsUnrefInode i).cwd = s.cwd :=
  (unref_fields s i).2.1

theorem unref_table : (s.vfsUnrefInode i).table = s.table :=
  (unref_fields s i).1

end

theorem addRef_refcnt (i j : Nat) (d : Int) :
    ((s.addRef i d).inodes j).refcnt = (s.inodes j).refcnt + if i = j then d else 0 := by
  by_cases same : j = i
  · rw [same]
    simp [addRef]
  · simp [addRef, same, Ne.symm same]

theorem unref_refcnt (i : Option Nat) (j : Nat) :
    ((s.vfsUnrefInode i).inodes j).refcnt = (s.inodes j).refcnt - if i = some j then 1 else 0 := by
  cases i with
  | none => simp [vfsUnrefInode]
  | some i =>
    obtain ⟨_, _, eq⟩ := vfsUnrefInode_eq s i
    rw [eq]
    rw [addRef_refcnt]
    by_cases same : i = j
    · simp [same, Int.sub_eq_add_neg]
    · simp [same]

theorem lookup_same (found : Found) : SameSlots s (s.lookup found).2 := by
  cases found with
  | fresh => exact ⟨rfl, rfl, rfl, fun _ => rfl⟩
  | held i => exact addRef_same s i 1

end

theorem setEntry_same {file : ProcessFile} (same : file.refcnt = (s.table e).refcnt) :
    SameSlots s (s.setEntry e file) := by
  refine ⟨rfl, rfl, rfl, fun j => ?_⟩
  by_cases at_e : j = e
  · rw [at_e]
    simp [setEntry, same]
  · simp [setEntry, at_e]

theorem fill_same (s : Files) (p fd : Nat) (inode : Option Nat) (path : Option String)
    (mode offset : Int) : SameSlots s (s.fill p fd inode path mode offset) := by
  unfold fill
  split
  · exact .refl s
  · exact setEntry_same rfl

theorem dropPipe_same (s : Files) (r w q : Nat) : SameSlots s (s.dropPipe r w q) :=
  ((vfsUnrefInode_same s (some r)).trans (vfsUnrefInode_same _ (some w))).trans
    ⟨rfl, rfl, rfl, fun _ => rfl⟩

/-! ### One descriptor -/

theorem TableOk.refcnt_pos (h : TableOk s) (points : s.files k = some e) :
    0 < (s.table e).refcnt := by
  have pos := refs_pos (h.inside k e points).1 points
  have count : (s.table e).refcnt = refs slots s.files e := h.counted e
  omega

theorem TableOk.point (h : TableOk s) (empty : s.files k = none) (mem : k ∈ slots)
    (high : e < PROCESS_SYS_FILE_LIMIT) (files : t.files = update s.files k (some e))
    (count : ∀ j, (t.table j).refcnt = (s.table j).refcnt + if j = e then 1 else 0)
    (used : ∀ j < t.next, (t.table j).refcnt ≠ 0) : TableOk t where
  counted := by
    rw [files]
    exact h.counted.point empty mem count
  used := used
  inside j e' points := by
    rw [files] at points
    rw [update_apply] at points
    split_ifs at points with same
    · cases points
      exact ⟨same ▸ mem, high⟩
    · exact h.inside j e' points

theorem addRefcnt_refcnt (s : Files) (p fd : Nat) (o : Option Nat) (e : Nat) (d : Int) (j : Nat) :
    (((s.setFile p fd o).addRefcnt e d).table j).refcnt =
      (s.table j).refcnt + if j = e then d else 0 := by
  by_cases same : j = e
  · rw [same]
    simp [addRefcnt, setEntry, setFile]
  · simp [addRefcnt, setEntry, setFile, same]

/-- An empty descriptor is pointed to an entry in use. -/
theorem share_keeps (points : s.files k = some e) (empty : s.files (p, n) = none)
    (mem : (p, n) ∈ slots) : Keeps p s ((s.setFile p n (some e)).addRefcnt e 1) := by
  refine ⟨rfl, fun j ne => update_of_ne (fun same => ne (by rw [same])) _ _, fun h => ?_⟩
  have count := addRefcnt_refcnt s p n (some e) e 1
  refine h.point empty mem (h.inside k e points).2 rfl count fun j lt => ?_
  have pos := h.refcnt_pos points
  have used := h.used j lt
  rw [count]
  split
  case isTrue same =>
    rw [same]
    omega
  case isFalse => simpa using used

theorem freeEntry_eq_some (found : s.freeEntry = some e) :
    (s.table e).refcnt = 0 ∧ s.next ≤ e ∧ e < PROCESS_SYS_FILE_LIMIT ∧
      ∀ j, s.next ≤ j → j < e → (s.table j).refcnt ≠ 0 := by
  obtain ⟨free, mem, before⟩ := find?_range'_eq_some.1 found
  have range := mem_range'_1.1 mem
  refine ⟨by simpa using free, range.1, by omega, fun j low high => ?_⟩
  simpa using before j low high

theorem freeDescriptor_eq_some {from_ : Nat} (found : s.freeDescriptor p from_ = some n) :
    s.files (p, n) = none ∧ n < PROCESS_FILE_LIMIT := by
  have free := find?_some found
  have range := mem_range'_1.1 (mem_of_find?_eq_some found)
  exact ⟨by simpa using free, by omega⟩

theorem processAllocFd_cases {fd : Fin PROCESS_FILE_LIMIT} {r : Except Errno Nat}
    (call : s.processAllocFd p fd = (r, t)) : (∃ err, r = .error err ∧ t = s) ∨
      ∃ n e, r = .ok n ∧ s.files (p, n) = none ∧ (s.table e).refcnt = 0 ∧
        t = { (s.setFile p n (some e)).setEntry e { s.table e with refcnt := 1 } with
          next := e + 1 } := by
  unfold processAllocFd at call
  split at call
  · cases call
    exact .inl ⟨_, rfl, rfl⟩
  rename_i e found
  split at call
  · cases call
    exact .inl ⟨_, rfl, rfl⟩
  rename_i n free
  cases call
  exact .inr ⟨n, e, rfl, (freeDescriptor_eq_some free).1, (freeEntry_eq_some found).1, rfl⟩

theorem freeDescriptor_self (empty : s.files (p, n) = none) (narrow : n < PROCESS_FILE_LIMIT) :
    s.freeDescriptor p n = some n := by
  unfold freeDescriptor
  rw [show PROCESS_FILE_LIMIT - n = (PROCESS_FILE_LIMIT - n - 1) + 1 by omega, range'_succ]
  simp [empty]

theorem processAllocFd_keeps (s : Files) (fd : Fin PROCESS_FILE_LIMIT) (hp : p < PROCESS_LIMIT) :
    Keeps p s (s.processAllocFd p fd).2 := by
  unfold processAllocFd
  split
  · exact .refl p s
  rename_i e found
  split
  · exact .refl p s
  rename_i n free
  obtain ⟨zero, -, high, before⟩ := freeEntry_eq_some found
  obtain ⟨empty, narrow⟩ := freeDescriptor_eq_some free
  have mem : (p, n) ∈ slots := mem_slots.2 ⟨hp, narrow⟩
  refine ⟨rfl, fun j ne => update_of_ne (fun same => ne (by rw [same])) _ _, fun h => ?_⟩
  have count (j : Nat) : (update s.table e { s.table e with refcnt := 1 } j).refcnt =
      (s.table j).refcnt + if j = e then 1 else 0 := by
    by_cases same : j = e
    · rw [same]
      simp [zero]
    · simp [same]
  refine h.point empty mem high rfl count fun j lt => ?_
  change (update s.table e { s.table e with refcnt := 1 } j).refcnt ≠ 0
  change j < e + 1 at lt
  rw [count]
  split_ifs with same
  · rw [same, zero]
    decide
  · rw [Int.add_zero]
    by_cases old : j < s.next
    · exact h.used j old
    · exact before j (by omega) (by omega)

def inodeOf (s : Files) (e : Nat) : Option Nat := (s.table e).inode

/-- What `process_free_fd` does to an entry without references. -/
def closeEntry (s : Files) (e : Nat) : Files :=
  (s.vfsUnrefInode (s.inodeOf e)).setEntry e .unused

/-- What it does first. -/
def leave (s : Files) (p fd e : Nat) : Files := (s.setFile p fd none).addRefcnt e (-1)

theorem processFreeFd_cases (points : s.files (p, fd) = some e) :
    ∃ v, (s.processFreeFd p fd).2 = { v with next := min e s.next } ∧
      (v = s.leave p fd e ∧ ((s.leave p fd e).table e).refcnt ≠ 0 ∨
        v = (s.leave p fd e).closeEntry e ∧ ((s.leave p fd e).table e).refcnt = 0) := by
  have back (v : Files) (same : v.next = s.next) :
      (if e < v.next then { v with next := e } else v) = { v with next := min e s.next } := by
    rw [← same]
    split
    case isTrue lt => rw [min_eq_left lt.le]
    case isFalse ge => rw [min_eq_right (not_lt.1 ge)]
  unfold processFreeFd
  rw [points]
  by_cases last : ((s.leave p fd e).table e).refcnt = 0
  · refine ⟨_, Eq.trans ?_ (back ((s.leave p fd e).closeEntry e) ?_), .inr ⟨rfl, last⟩⟩
    · unfold leave at last
      simp only [last, if_true]
      rfl
    · exact (vfsUnrefInode_same (s.leave p fd e) _).next
  · refine ⟨_, Eq.trans ?_ (back (s.leave p fd e) rfl), .inl ⟨rfl, last⟩⟩
    unfold leave at last
    simp only [last, if_false]
    rfl

/-- What `process_free_fd` does to the table and the descriptors. -/
structure Frees (p fd e : Nat) (s t : Files) : Prop where
  live : t.live = s.live
  files : t.files = Function.update s.files (p, fd) none
  next : t.next = min e s.next
  refcnt : ∀ j, (t.table j).refcnt = (s.table j).refcnt - if j = e then 1 else 0

theorem processFreeFd_frees (points : s.files (p, fd) = some e) :
    Frees p fd e s (s.processFreeFd p fd).2 := by
  have down (j : Nat) : ((s.leave p fd e).table j).refcnt =
      (s.table j).refcnt - if j = e then 1 else 0 := by
    refine (addRefcnt_refcnt s p fd none e (-1) j).trans ?_
    split <;> omega
  obtain ⟨v, eq, ⟨rfl, -⟩ | ⟨rfl, last⟩⟩ := processFreeFd_cases points
  · rw [eq]
    exact ⟨rfl, rfl, rfl, down⟩
  · have unref := vfsUnrefInode_same (s.leave p fd e) ((s.leave p fd e).inodeOf e)
    have same := unref.trans (@setEntry_same _ e .unused ((unref.refcnt e).trans last).symm)
    rw [eq]
    exact ⟨same.live, same.files, rfl, fun j => (same.refcnt j).trans (down j)⟩

theorem processFreeFd_keeps (s : Files) (p fd : Nat) : Keeps p s (s.processFreeFd p fd).2 := by
  cases points : s.files (p, fd) with
  | none =>
    unfold processFreeFd
    rw [points]
    exact .refl p s
  | some e =>
    have frees := processFreeFd_frees points
    refine ⟨frees.live, fun j ne => ?_, fun h => ?_⟩
    · rw [frees.files, update_of_ne fun same => ne (by rw [same])]
    · constructor
      case counted =>
        rw [frees.files]
        exact h.counted.clear points (h.inside _ _ points).1 frees.refcnt
      case used =>
        intro j lt
        rw [frees.next] at lt
        rw [frees.refcnt, if_neg (by omega), Int.sub_zero]
        exact h.used j (by omega)
      case inside =>
        intro j e' points'
        rw [frees.files, update_apply] at points'
        split_ifs at points' with same
        exact h.inside j e' points'

theorem processFreeFd_files (s : Files) (p fd : Nat) :
    (s.processFreeFd p fd).2.files = update s.files (p, fd) none := by
  cases points : s.files (p, fd) with
  | none =>
    unfold processFreeFd
    rw [points]
    exact (update_eq_self_iff.2 points.symm).symm
  | some e => exact (processFreeFd_frees points).files

/-! ### The calls -/

theorem freeAll_keeps (s : Files) (p : Nat) (fds : List Nat) : Keeps p s (s.freeAll p fds) := by
  induction fds generalizing s with
  | nil => exact .refl p s
  | cons fd fds ih => exact (processFreeFd_keeps s p fd).trans (ih _)

theorem freeAll_files (s : Files) (p : Nat) (fds : List Nat) (k : Nat × Nat) :
    (s.freeAll p fds).files k = if k.1 = p ∧ k.2 ∈ fds then none else s.files k := by
  induction fds generalizing s with
  | nil => simp [freeAll]
  | cons fd fds ih =>
    have rest := ih (s.processFreeFd p fd).2
    rw [processFreeFd_files] at rest
    refine rest.trans ?_
    by_cases same : k = (p, fd)
    · simp [same]
    · have ne : ¬(k.1 = p ∧ k.2 = fd) := fun both => same (Prod.ext both.1 both.2)
      rw [Function.update_of_ne same]
      simp only [mem_cons]
      congr 1
      simp only [eq_iff_iff]
      tauto

theorem fcntlDupfd_cases {arg : Int} {cloexec : Bool} {r : Except Errno Int}
    (call : s.fcntlDupfd p fd e arg cloexec = (r, t)) :
    (∃ err, r = .error err ∧ t = s) ∨ (r = .ok fd ∧ t = s ∧ descriptor arg = some fd) ∨
      ∃ a n, descriptor arg = some a ∧ fd ≠ a ∧ s.freeDescriptor p a = some n ∧ r = .ok n ∧
        t = { (s.setFile p n (some e)).addRefcnt e 1 with
          fdflags := update s.fdflags (p, n) (if cloexec then (FD_CLOEXEC : Int) else 0) } := by
  unfold fcntlDupfd at call
  split at call
  case h_1 =>
    cases call
    exact .inl ⟨_, rfl, rfl⟩
  case h_2 a index =>
    split at call
    case isTrue same =>
      cases call
      exact .inr (.inl ⟨rfl, rfl, same ▸ index⟩)
    case isFalse ne =>
      split at call
      case h_1 =>
        cases call
        exact .inl ⟨_, rfl, rfl⟩
      case h_2 n free =>
        cases call
        exact .inr (.inr ⟨a, n, index, ne, free, rfl, rfl⟩)

theorem fcntl_cases {fd arg : Int} {cmd : FcntlCmd} {r : Except Errno Int}
    (call : s.fcntl p fd cmd arg = (r, t)) :
    (∃ err, r = .error err ∧ t = s ∧
      (cmd = .F_SETFD → ∀ n, descriptor fd = some n → s.files (p, n) = none)) ∨
    ∃ n e, descriptor fd = some n ∧ s.files (p, n) = some e ∧
      ((t = s ∧ cmd ≠ .F_SETFD ∧ (cmd = .F_DUPFD → r = .ok n ∧ descriptor arg = some n)) ∨
        (cmd = .F_SETFD ∧ t = { s with fdflags := update s.fdflags (p, n) arg }) ∨
        (cmd = .F_SETFL ∧ t = s.setEntry e { s.table e with mode := arg }) ∨
        ((cmd = .F_DUPFD ∨ cmd = .F_DUPFD_CLOEXEC) ∧ ∃ a m, descriptor arg = some a ∧ n ≠ a ∧
          s.freeDescriptor p a = some m ∧ r = .ok m ∧
          t = { (s.setFile p m (some e)).addRefcnt e 1 with
            fdflags := update s.fdflags (p, m) (if cmd = .F_DUPFD then 0 else 1) })) := by
  unfold fcntl at call
  split at call
  case h_1 closed =>
    cases call
    exact .inl ⟨_, rfl, rfl, by simp [closed]⟩
  case h_2 n index =>
    split at call
    case h_1 closed =>
      cases call
      exact .inl ⟨_, rfl, rfl, by simp [index, closed]⟩
    case h_2 e points =>
      cases cmd with
      | F_DUPFD | F_DUPFD_CLOEXEC =>
        rcases fcntlDupfd_cases call with ⟨err, rfl, rfl⟩ | ⟨rfl, rfl, same⟩ | made
        · exact .inl ⟨err, rfl, rfl, nofun⟩
        · exact .inr ⟨n, e, index, points, .inl ⟨rfl, nofun, fun _ => ⟨rfl, same⟩⟩⟩
        · exact .inr ⟨n, e, index, points, .inr (.inr (.inr ⟨by simp, made⟩))⟩
      | unknown =>
        cases call
        exact .inl ⟨_, rfl, rfl, nofun⟩
      | F_GETFD | F_GETFL =>
        cases call
        exact .inr ⟨n, e, index, points, .inl ⟨rfl, nofun, nofun⟩⟩
      | F_SETFD =>
        cases call
        exact .inr ⟨n, e, index, points, .inr (.inl ⟨rfl, rfl⟩)⟩
      | F_SETFL =>
        cases call
        exact .inr ⟨n, e, index, points, .inr (.inr (.inl ⟨rfl, rfl⟩))⟩

/-- The loop of `_task_fork`, when the child has no descriptors yet. -/
theorem copyFiles_keeps {parent child : Nat} {fds : List Nat} (hc : child < PROCESS_LIMIT)
    (nodup : fds.Nodup) (narrow : ∀ fd ∈ fds, fd < PROCESS_FILE_LIMIT)
    (empty : ∀ fd ∈ fds, s.files (child, fd) = none) :
    Keeps child s (s.copyFiles parent child fds) := by
  induction fds generalizing s with
  | nil => exact .refl child s
  | cons fd fds ih =>
    obtain ⟨fresh, nodup⟩ := nodup_cons.1 nodup
    obtain ⟨first, narrow⟩ := forall_mem_cons.1 narrow
    obtain ⟨hole, empty⟩ := forall_mem_cons.1 empty
    have still {e : Option Nat} : ∀ j ∈ fds,
        update s.files (child, fd) e (child, j) = none := by
      intro j mem
      rw [update_of_ne (by rintro ⟨⟩; exact fresh mem)]
      exact empty j mem
    unfold copyFiles
    cases points : s.files (parent, fd) with
    | none =>
      have same : SameSlots s (s.setFile child fd none) :=
        ⟨rfl, update_eq_self_iff.2 hole.symm, rfl, fun _ => rfl⟩
      exact same.keeps.trans (ih nodup narrow still)
    | some e =>
      exact (share_keeps points hole (mem_slots.2 ⟨hc, first⟩)).trans (ih nodup narrow still)

theorem copyFiles_live (s : Files) (parent child : Nat) (fds : List Nat) :
    (s.copyFiles parent child fds).live = s.live := by
  induction fds generalizing s with
  | nil => rfl
  | cons fd fds ih =>
    unfold copyFiles
    rw [ih]
    cases s.files (parent, fd) <;> rfl

/-- The table is consistent and only processes that exist have descriptors. -/
structure Ok (s : Files) : Prop where
  table : TableOk s
  idle : Idle s

theorem Keeps.ok_all (h : Keeps p s t) (ok : Ok s) (live : s.live p = true) : Ok t :=
  ⟨h.ok ok.table, h.idle ok.idle live⟩

theorem freePid_eq_some {pid : Nat}
    (found : (range' 1 (PROCESS_LIMIT - 1)).find? (fun pid => !s.live pid) = some pid) :
    1 ≤ pid ∧ pid < PROCESS_LIMIT ∧ s.live pid = false := by
  have range := mem_range'_1.1 (mem_of_find?_eq_some found)
  exact ⟨range.1, by omega, by simpa using find?_some found⟩

theorem taskFork_ok {parent : Nat} {memory : Bool} (ok : Ok s) :
    Ok (s.taskFork parent memory).2 := by
  unfold taskFork
  split
  · exact ok
  rename_i child found
  split
  · exact ok
  obtain ⟨-, hc, dead⟩ := freePid_eq_some found
  have copied : Keeps child s (s.copyFiles parent child (range PROCESS_FILE_LIMIT)) :=
    copyFiles_keeps hc nodup_range
    (fun fd mem => mem_range.1 mem) fun fd _ => ok.idle (child, fd) dead
  generalize s.copyFiles parent child (range PROCESS_FILE_LIMIT) = t at copied
  have same := vfsRefInode_same { t with cwd := update t.cwd child (t.cwd parent) }
    (update t.cwd child (t.cwd parent) parent)
  constructor
  case table =>
    have moved : SameSlots t { t with cwd := update t.cwd child (t.cwd parent) } :=
      ⟨rfl, rfl, rfl, fun _ => rfl⟩
    have table := moved.ok (copied.ok ok.table)
    exact { same.ok table with }
  case idle =>
    intro k idle
    change update (vfsRefInode _ _).live child true k.1 = false at idle
    have ne : k.1 ≠ child := by
      rintro eq
      rw [eq, update_self] at idle
      cases idle
    rw [update_of_ne ne, same.live] at idle
    rw [same.files]
    exact (copied.off k ne).trans (ok.idle k (copied.live ▸ idle))

theorem processFree_live (s : Files) (live : s.live p = true) :
    (s.processFree p).live = update s.live p false := by
  unfold processFree
  rw [if_pos live]
  rw [(freeAll_keeps _ p _).live, (vfsUnrefInode_same _ _).live]

theorem processFree_files (table : TableOk s) (live : s.live p = true) (k : Nat × Nat) :
    (s.processFree p).files k = if k.1 = p then none else s.files k := by
  unfold processFree
  rw [if_pos live]
  have same := vfsUnrefInode_same { s with live := update s.live p false } (s.cwd p)
  generalize all : range PROCESS_FILE_LIMIT = fds
  refine (freeAll_files _ p fds k).trans ?_
  rw [same.files]
  by_cases own : k.1 = p
  · rw [if_pos own]
    refine ite_eq_left_iff.2 fun wide => ?_
    by_contra there
    obtain ⟨e, points⟩ := Option.ne_none_iff_exists'.1 there
    exact wide ⟨own, all ▸ mem_range.2 (mem_slots.1 (table.inside k e points).1).2⟩
  · rw [if_neg own, if_neg fun both => own both.1]

theorem processFree_ok (ok : Ok s) (p : Nat) : Ok (s.processFree p) := by
  by_cases live : s.live p = true
  · constructor
    case table =>
      have same := vfsUnrefInode_same { s with live := update s.live p false } (s.cwd p)
      have table := same.ok { ok.table with }
      unfold processFree
      rw [if_pos live]
      generalize range PROCESS_FILE_LIMIT = fds
      have freed := (freeAll_keeps _ p fds).ok table
      exact { freed with }
    case idle =>
      intro k dead
      rw [processFree_live s live, update_apply] at dead
      rw [processFree_files ok.table live]
      split
      · rfl
      · rename_i other
        exact ok.idle k (by rwa [if_neg other] at dead)
  · unfold processFree
    rw [if_neg live]
    exact ok

theorem boot_ok : Ok boot where
  table :=
    { counted := fun e => by
        have none : refs slots boot.files e = 0 := refs_eq_zero_iff.2 fun _ _ => nofun
        rw [none]
        rfl
      used := nofun
      inside := nofun }
  idle := fun _ _ => rfl

end Files

end Os0

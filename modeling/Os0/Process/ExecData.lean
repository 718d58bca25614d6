import Os0.Lib.CStrings
import Os0.Memory.FileMap
import Os0.Process.Exec

/-! The arguments of a new image: `task_setup_exec` (`arch/i386/task.c`) on the bytes of the address
space. The vectors and strings that are copied may be anywhere, also where the copy goes. -/
namespace Os0

open Bytes CStrings List Option Mem Nat

def EXEC_DATA_VADDR : Nat := 0xff410000

/-- A loop over the pointers of a vector from index `i` on: their number, and the bytes of the
strings added to `len`. `none` is a loop that does not end. -/
def vectorSize (m : Mem) (v : Nat) : Nat → Nat → Nat → Option (Nat × Nat)
  | 0, _, _ => none
  | fuel + 1, i, len =>
    if m.word (v + 4 * i) = 0 then some (i, len)
    else (strlen m 4294967296 (m.word (v + 4 * i))).bind fun n =>
      vectorSize m v fuel (i + 1) (add32 len (n + 1))

/-- The end of the page table that the area is in. A copy that comes so far has met a page that is
not mapped. -/
def EXEC_TABLE_END : Nat := 0xff800000

/-- A loop that copies `n` strings of the vector `src` from index `i` on, to `ptr`, and enters them
in the vector `data`. The entry is written before the pointer is read. -/
def copyStrings (data src : Nat) : Nat → Nat → Nat → Mem → Option (Nat × Mem)
  | 0, i, ptr, m => some (ptr, m.setWord (data + 4 * i) 0)
  | n + 1, i, ptr, m =>
    let m := m.setWord (data + 4 * i) ptr
    (stpcpy (EXEC_TABLE_END - ptr) m ptr (m.word (src + 4 * i))).bind fun (last, m) =>
      copyStrings data src n (i + 1) (last + 1) m

/-- `task_setup_exec`. -/
def setupExecData (m : Mem) (argv envp : Nat) : Option (Option Errno × Mem) :=
  (vectorSize m argv 4294967296 0 0).bind fun (narg, len) =>
    (vectorSize m envp 4294967296 0 len).bind fun (nenv, len) =>
      if ARG_MAX ≤ add32 len (4 * (narg + nenv + 4)) then some (some .E2BIG, m)
      else
        (copyStrings (EXEC_DATA_VADDR + 8) argv narg 0 (EXEC_DATA_VADDR + 8 + 4 * (narg + 1))
          (m.setWord EXEC_DATA_VADDR (EXEC_DATA_VADDR + 8))).bind fun (ptr, m) =>
            let data := roundPage ptr
            (copyStrings data envp nenv 0 (data + 4 * (nenv + 1))
              (m.setWord (EXEC_DATA_VADDR + 4) data)).map fun (_, m) => (none, m)

/-- Start and length of the strings that a vector leads to. -/
def stringObjects (m : Mem) (v : Nat) : Nat → List (List UInt8) → List (Nat × Nat)
  | _, [] => []
  | i, xs :: strs => (m.word (v + 4 * i), xs.length + 1) :: stringObjects m v (i + 1) strs

/-- What stands at `EXEC_DATA_VADDR`: two pointers, and two vectors with their strings. -/
def execObjects (m : Mem) (argv envp : List (List UInt8)) : List (Nat × Nat) :=
  (EXEC_DATA_VADDR, 8) ::
    ((m.word EXEC_DATA_VADDR, 4 * (argv.length + 1)) ::
      stringObjects m (m.word EXEC_DATA_VADDR) 0 argv) ++
    ((m.word (EXEC_DATA_VADDR + 4), 4 * (envp.length + 1)) ::
      stringObjects m (m.word (EXEC_DATA_VADDR + 4)) 0 envp)

def ObjectsApart (a b : Nat × Nat) : Prop := a.1 + a.2 ≤ b.1 ∨ b.1 + b.2 ≤ a.1

/-- The vectors are what was passed, their objects are apart, and nothing else has been written. -/
structure ArgumentsPassed (m m' : Mem) (argv envp : List (List UInt8)) : Prop where
  arguments : Strings m' (m'.word EXEC_DATA_VADDR) 0 argv
  environment : Strings m' (m'.word (EXEC_DATA_VADDR + 4)) 0 envp
  apart : (execObjects m' argv envp).Pairwise ObjectsApart
  written : ∀ a, m' a ≠ m a → ∃ o ∈ execObjects m' argv envp, o.1 ≤ a ∧ a < o.1 + o.2
  within : ∀ o ∈ execObjects m' argv envp,
    EXEC_DATA_VADDR ≤ o.1 ∧ o.1 + o.2 ≤ EXEC_DATA_VADDR + ARG_MAX

/-- Where the environment starts: behind the arguments, at the next page. -/
def envOffset (argv : List (List UInt8)) : Nat := roundUp (8 + 4 * (argv.length + 1) + area argv)

/-- Where it ends. -/
def layoutEnd (argv envp : List (List UInt8)) : Nat :=
  envOffset argv + 4 * (envp.length + 1) + area envp

/-- The strings one behind the other. -/
def placeStrings : Nat → List (List UInt8) → List (Nat × Nat)
  | _, [] => []
  | ptr, xs :: strs => (ptr, xs.length + 1) :: placeStrings (ptr + (xs.length + 1)) strs

section Place

variable {ptr : Nat} {strs : List (List UInt8)}

theorem placeStrings_range : ∀ o ∈ placeStrings ptr strs,
    ptr ≤ o.1 ∧ o.1 + o.2 ≤ ptr + area strs := by
  induction strs generalizing ptr with
  | nil => simp [placeStrings]
  | cons _ strs ih =>
    simp only [placeStrings, forall_mem_cons, area_cons]
    refine ⟨by omega, fun o ho => ?_⟩
    have := ih o ho
    omega

theorem placeStrings_apart : (placeStrings ptr strs).Pairwise ObjectsApart := by
  induction strs generalizing ptr with
  | nil => exact .nil
  | cons _ strs ih => exact .cons (fun o ho => .inl (placeStrings_range o ho).1) ih

theorem placeStrings_covers {a : Nat} (lower : ptr ≤ a) (upper : a < ptr + area strs) :
    ∃ o ∈ placeStrings ptr strs, o.1 ≤ a ∧ a < o.1 + o.2 := by
  induction strs generalizing ptr with
  | nil =>
    simp only [area_nil] at upper
    omega
  | cons xs strs ih =>
    simp only [placeStrings, area_cons] at upper ⊢
    by_cases first : a < ptr + (xs.length + 1)
    · exact ⟨_, mem_cons_self, lower, first⟩
    · obtain ⟨o, ho, inside⟩ := @ih (ptr + (xs.length + 1)) (by omega) (by omega)
      exact ⟨o, mem_cons_of_mem _ ho, inside⟩

theorem placeStrings_end {hi : Nat} (within : ∀ o ∈ placeStrings ptr strs, o.1 + o.2 ≤ hi)
    (start : ptr ≤ hi) : ptr + area strs ≤ hi := by
  by_contra beyond
  obtain ⟨o, ho, -, _⟩ := @placeStrings_covers ptr strs (ptr + area strs - 1) (by omega) (by omega)
  have := within o ho
  omega

end Place

theorem stringObjects_length (m : Mem) (v i : Nat) (strs : List (List UInt8)) :
    ((stringObjects m v i strs).map (·.2)).sum = area strs := by
  induction strs generalizing i with
  | nil => rfl
  | cons _ strs ih => simp only [stringObjects, map_cons, sum_cons, ih, area_cons]

section Copy

variable {m : Mem} {src data i ptr : Nat} {strs : List (List UInt8)}

theorem vectorSize_eq {fuel len : Nat} (source : Strings m src i strs)
    (enough : strs.length < fuel) (small : len < 4294967296) :
    vectorSize m src fuel i len = some (i + strs.length, (len + area strs) % 4294967296) := by
  induction strs generalizing i fuel len with
  | nil =>
    cases fuel with
    | zero => cases enough
    | succ fuel =>
      have last : m.word (src + 4 * i) = 0 := source
      simp [vectorSize, last, mod_eq_of_lt small]
  | cons xs strs ih =>
    cases fuel with
    | zero => cases enough
    | succ fuel =>
      obtain ⟨there, _, string, rest⟩ := source
      simp only [length_cons] at enough
      have count : strlen m 4294967296 (m.word (src + 4 * i)) = some xs.length :=
        strlen_eq string (by omega)
      have later : vectorSize m src fuel (i + 1) (add32 len (xs.length + 1)) = _ :=
        ih rest (by omega) (mod_lt _ (by decide))
      rw [vectorSize, if_neg there, count, bind_some, later]
      simp only [length_cons, area_cons, add32]
      congr 2 <;> omega

/-- The memory with the strings of a vector from index `i` on: their entries in `data`, and their
bytes from `ptr` on. -/
def laid (data : Nat) : Nat → Nat → Mem → List (List UInt8) → Mem
  | i, _, m, [] => m.setWord (data + 4 * i) 0
  | i, ptr, m, xs :: strs =>
    laid data (i + 1) (ptr + (xs.length + 1)) (put (m.setWord (data + 4 * i) ptr) ptr xs) strs

/-- The strings of the vector `src` are still there when their turn comes: with those before them
laid out, each pointer leads to its string, which does not reach into its own place from below. -/
def StillThere (data src : Nat) : Nat → Nat → Mem → List (List UInt8) → Prop
  | _, _, _, [] => True
  | i, ptr, m, xs :: strs =>
    let m := m.setWord (data + 4 * i) ptr
    let p := m.word (src + 4 * i)
    CString m p xs ∧ ¬(p < ptr ∧ ptr ≤ p + xs.length) ∧
      StillThere data src (i + 1) (ptr + (xs.length + 1)) (put m ptr xs) strs

theorem StillThere.clean (h : StillThere data src i ptr m strs) :
    ∀ xs ∈ strs, (0 : UInt8) ∉ xs := by
  induction strs generalizing i ptr m with
  | nil => simp
  | cons xs strs ih =>
    obtain ⟨string, -, rest⟩ := h
    exact forall_mem_cons.2 ⟨string.clean, ih rest⟩

/-- Whatever is copied are strings that were still there when their turn came. -/
theorem copyStrings_some_iff {n last : Nat} {m' : Mem} :
    copyStrings data src n i ptr m = some (last, m') ↔
      ∃ strs, strs.length = n ∧ StillThere data src i ptr m strs ∧
        (∀ o ∈ placeStrings ptr strs, o.1 + o.2 ≤ EXEC_TABLE_END) ∧
        ptr + area strs = last ∧ laid data i ptr m strs = m' := by
  induction n generalizing i ptr m with
  | zero =>
    constructor
    · intro done
      cases done
      exact ⟨[], rfl, trivial, by simp [placeStrings], rfl, rfl⟩
    · rintro ⟨strs, none, -, -, rfl, rfl⟩
      obtain rfl := length_eq_zero_iff.1 none
      rfl
  | succ n ih =>
    simp only [copyStrings, bind_eq_some_iff, Prod.exists]
    constructor
    · rintro ⟨_, _, copied, rest⟩
      obtain ⟨xs, string, free, short, rfl, rfl⟩ := stpcpy_some_iff.1 copied
      obtain ⟨strs, count, there, fits, rfl, done⟩ := ih.1 rest
      refine ⟨xs :: strs, congrArg (· + 1) count, ⟨string, free, there⟩, ?_, ?_, done⟩
      · exact forall_mem_cons.2 ⟨by omega, fits⟩
      · rw [area_cons]
        omega
    · rintro ⟨_ | ⟨xs, strs⟩, count, there, fits, rfl, rfl⟩
      · cases count
      · obtain ⟨string, free, there⟩ := there
        obtain ⟨first, fits⟩ := forall_mem_cons.1 fits
        refine ⟨_, _, stpcpy_some_iff.2 ⟨xs, string, free, by omega, rfl, rfl⟩, ih.2 ⟨strs, ?_⟩⟩
        refine ⟨Nat.succ.inj count, there, fits, ?_, rfl⟩
        rw [area_cons]
        omega

theorem laid_off {a : Nat} (slots : ¬(data + 4 * i ≤ a ∧ a < data + 4 * (i + strs.length + 1)))
    (bytes : ¬(ptr ≤ a ∧ a < ptr + area strs)) : laid data i ptr m strs a = m a := by
  induction strs generalizing i ptr m with
  | nil =>
    rw [length_nil] at slots
    exact setWord_of_off _ (by omega)
  | cons xs strs ih =>
    rw [length_cons] at slots
    rw [area_cons] at bytes
    rw [laid, ih (by omega) (by omega), put_of_off (by omega), setWord_of_off _ (by omega)]

theorem laid_strings (clean : ∀ xs ∈ strs, (0 : UInt8) ∉ xs)
    (table : data + 4 * (i + strs.length + 1) ≤ ptr) (fits : ptr + area strs < 4294967296) :
    Strings (laid data i ptr m strs) data i strs ∧
      stringObjects (laid data i ptr m strs) data i strs = placeStrings ptr strs := by
  induction strs generalizing i ptr m with
  | nil => exact ⟨word_setWord _ (by decide), rfl⟩
  | cons xs strs ih =>
    rw [length_cons] at table
    rw [area_cons] at fits
    obtain ⟨first, clean⟩ := forall_mem_cons.1 clean
    obtain ⟨rest, objects⟩ := @ih (put (m.setWord (data + 4 * i) ptr) ptr xs) (i + 1)
      (ptr + (xs.length + 1)) clean (by omega) (by omega)
    have entry : (laid data i ptr m (xs :: strs)).word (data + 4 * i) = ptr := by
      have made : (m.setWord (data + 4 * i) ptr).word (data + 4 * i) = ptr :=
        word_setWord m (by omega)
      refine .trans (word_congr fun a lo hi => ?_) made
      rw [laid, laid_off (by omega) (by omega), put_of_off (by omega)]
    have string : CString (laid data i ptr m (xs :: strs)) ptr xs :=
      (cString_put first).congr fun a lo hi => by rw [laid, laid_off (by omega) (by omega)]
    constructor
    · rw [Strings, entry]
      exact ⟨by omega, by omega, string, rest⟩
    · rw [stringObjects, placeStrings, entry]
      exact congrArg (_ :: ·) objects

/-- Strings that are all outside of the bytes that are written are still there. -/
theorem stillThere_of_avoids {W : Nat → Prop} (source : Strings m src i strs)
    (clear : Avoids W m src i strs)
    (slots : ∀ a, data + 4 * i ≤ a → a < data + 4 * (i + strs.length + 1) → W a)
    (bytes : ∀ a, ptr ≤ a → a < ptr + area strs → W a) : StillThere data src i ptr m strs := by
  induction strs generalizing i ptr m with
  | nil => trivial
  | cons xs strs ih =>
    rw [length_cons] at slots
    rw [area_cons] at bytes
    obtain ⟨-, -, string, rest⟩ := source
    obtain ⟨slot, inside, clear⟩ := clear
    have same : ∀ a, ¬W a → m.setWord (data + 4 * i) ptr a = m a := by
      intro a out
      refine setWord_of_off _ ?_
      by_contra here
      exact out (slots a (by omega) (by omega))
    have word : (m.setWord (data + 4 * i) ptr).word (src + 4 * i) = m.word (src + 4 * i) :=
      word_congr fun a lo hi => same a (slot a lo hi)
    have same' : ∀ a, ¬W a → put (m.setWord (data + 4 * i) ptr) ptr xs a = m a := by
      intro a out
      rw [put_of_off, same a out]
      by_contra here
      exact out (bytes a (by omega) (by omega))
    obtain ⟨rest, clear⟩ := rest.congr clear same'
    rw [StillThere, word]
    refine ⟨string.congr fun a lo hi => same a (inside a lo hi), ?_, ih rest clear ?_ ?_⟩
    · rintro ⟨below, reaches⟩
      exact inside ptr (by omega) reaches (bytes ptr (by omega) (by omega))
    · exact fun a lo hi => slots a (by omega) (by omega)
    · exact fun a lo hi => bytes a (by omega) (by omega)

theorem stringObjects_congr {m' : Mem} {W : Nat → Prop} (clear : Avoids W m src i strs)
    (same : ∀ a, ¬W a → m' a = m a) : stringObjects m' src i strs = stringObjects m src i strs := by
  induction strs generalizing i with
  | nil => rfl
  | cons _ strs ih =>
    obtain ⟨slot, -, clear⟩ := clear
    have word : m'.word (src + 4 * i) = m.word (src + 4 * i) :=
      word_congr fun a lo hi => same a (slot a lo hi)
    rw [stringObjects, stringObjects, word, ih clear]

/-- Strings that have been placed are all in the vector and behind it. -/
theorem placed_avoids (placed : stringObjects m data i strs = placeStrings ptr strs) :
    Avoids (fun a => ¬(data + 4 * i ≤ a ∧ a < data + 4 * (i + strs.length + 1)) ∧
      ¬(ptr ≤ a ∧ a < ptr + area strs)) m data i strs := by
  have weaken : ∀ {W W' : Nat → Prop}, (∀ a, W' a → W a) → ∀ {i : Nat} {strs : List (List UInt8)},
      Avoids W m data i strs → Avoids W' m data i strs := by
    intro W W' sub i strs clear
    induction strs generalizing i with
    | nil => exact fun a lo hi bad => clear a lo hi (sub a bad)
    | cons xs strs ih =>
      exact ⟨fun a lo hi bad => clear.1 a lo hi (sub a bad),
        fun a lo hi bad => clear.2.1 a lo hi (sub a bad), ih clear.2.2⟩
  induction strs generalizing i ptr with
  | nil =>
    intro a lo hi out
    omega
  | cons xs strs ih =>
    simp only [stringObjects, placeStrings, List.cons.injEq, Prod.mk.injEq] at placed
    obtain ⟨⟨_, -⟩, placed⟩ := placed
    simp only [length_cons, area_cons]
    refine ⟨fun a lo hi out => ?_, fun a lo hi out => ?_, weaken (fun a out => ?_) (ih placed)⟩
    all_goals omega

end Copy

section Setup

variable {m : Mem} {argv envp : List (List UInt8)} {a e : Nat}

/-- The objects of `execObjects`, by their sizes alone. -/
def layoutObjects (argv envp : List (List UInt8)) : List (Nat × Nat) :=
  (EXEC_DATA_VADDR, 8) ::
    ((EXEC_DATA_VADDR + 8, 4 * (argv.length + 1)) ::
      placeStrings (EXEC_DATA_VADDR + 8 + 4 * (argv.length + 1)) argv) ++
    ((EXEC_DATA_VADDR + envOffset argv, 4 * (envp.length + 1)) ::
      placeStrings (EXEC_DATA_VADDR + envOffset argv + 4 * (envp.length + 1)) envp)

theorem envOffset_bounds (argv : List (List UInt8)) :
    8 + 4 * (argv.length + 1) + area argv ≤ envOffset argv ∧
      envOffset argv < 8 + 4 * (argv.length + 1) + area argv + 4096 := by
  unfold envOffset roundUp
  omega

/-- Where the environment vector is. -/
def envData (argv : List (List UInt8)) : Nat := EXEC_DATA_VADDR + envOffset argv

/-- The memory with the arguments, when the environment is due. -/
def laidArguments (m : Mem) (argv : List (List UInt8)) : Mem :=
  (laid (EXEC_DATA_VADDR + 8) 0 (EXEC_DATA_VADDR + 8 + 4 * (argv.length + 1))
    (m.setWord EXEC_DATA_VADDR (EXEC_DATA_VADDR + 8)) argv).setWord (EXEC_DATA_VADDR + 4)
      (envData argv)

/-- The memory with both. -/
def laidOut (m : Mem) (argv envp : List (List UInt8)) : Mem :=
  laid (envData argv) 0 (envData argv + 4 * (envp.length + 1)) (laidArguments m argv) envp

/-- The vectors `a` and `e` lead to these strings, each one when its turn comes. -/
def SourcesKept (m : Mem) (a e : Nat) (argv envp : List (List UInt8)) : Prop :=
  StillThere (EXEC_DATA_VADDR + 8) a 0 (EXEC_DATA_VADDR + 8 + 4 * (argv.length + 1))
    (m.setWord EXEC_DATA_VADDR (EXEC_DATA_VADDR + 8)) argv ∧
  StillThere (envData argv) e 0 (envData argv + 4 * (envp.length + 1)) (laidArguments m argv) envp

/-- The bytes that the layout fills. -/
def Filled (argv envp : List (List UInt8)) (x : Nat) : Prop :=
  ∃ o ∈ layoutObjects argv envp, o.1 ≤ x ∧ x < o.1 + o.2

theorem filled_iff {x : Nat} : Filled argv envp x ↔
    EXEC_DATA_VADDR ≤ x ∧ x < EXEC_DATA_VADDR + 8 + 4 * (argv.length + 1) + area argv ∨
      envData argv ≤ x ∧ x < envData argv + 4 * (envp.length + 1) + area envp := by
  unfold Filled layoutObjects
  simp only [cons_append, mem_append, mem_cons]
  have start : envData argv = EXEC_DATA_VADDR + envOffset argv := rfl
  constructor
  · rintro ⟨o, rfl | rfl | ho | rfl | ho, lo, hi⟩
    · dsimp only at lo hi
      omega
    · dsimp only at lo hi
      omega
    · have := placeStrings_range o ho
      omega
    · dsimp only at lo hi
      omega
    · have := placeStrings_range o ho
      omega
  · rintro (⟨lo, hi⟩ | ⟨lo, hi⟩)
    · by_cases head : x < EXEC_DATA_VADDR + 8
      · exact ⟨_, .inl rfl, lo, head⟩
      by_cases table : x < EXEC_DATA_VADDR + 8 + 4 * (argv.length + 1)
      · exact ⟨_, .inr (.inl rfl), Nat.le_of_not_lt head, table⟩
      obtain ⟨o, ho, inside⟩ := placeStrings_covers (Nat.le_of_not_lt table) hi
      exact ⟨o, .inr (.inr (.inl ho)), inside⟩
    · by_cases table : x < envData argv + 4 * (envp.length + 1)
      · exact ⟨_, .inr (.inr (.inr (.inl rfl))), lo, table⟩
      obtain ⟨o, ho, inside⟩ := placeStrings_covers (Nat.le_of_not_lt table) hi
      exact ⟨o, .inr (.inr (.inr (.inr ho))), inside⟩

theorem laidArguments_off {x : Nat} (pointers : ¬(EXEC_DATA_VADDR ≤ x ∧ x < EXEC_DATA_VADDR + 8))
    (bytes : ¬(EXEC_DATA_VADDR + 8 ≤ x ∧
      x < EXEC_DATA_VADDR + 8 + 4 * (argv.length + 1) + area argv)) :
    laidArguments m argv x = m x := by
  rw [laidArguments, setWord_of_off _ (by omega), laid_off (by omega) (by omega),
    setWord_of_off _ (by omega)]

theorem laidOut_off {x : Nat} (off : ¬Filled argv envp x) : laidOut m argv envp x = m x := by
  rw [filled_iff] at off
  rw [laidOut, laid_off (by omega) (by omega), laidArguments_off (by omega) (by omega)]

/-- The memory that is laid out has the two vectors. -/
theorem laidOut_spec (clean : ∀ xs ∈ argv, (0 : UInt8) ∉ xs)
    (clean' : ∀ xs ∈ envp, (0 : UInt8) ∉ xs)
    (fits : EXEC_DATA_VADDR + layoutEnd argv envp < 4294967296) :
    (laidOut m argv envp).word EXEC_DATA_VADDR = EXEC_DATA_VADDR + 8 ∧
      (laidOut m argv envp).word (EXEC_DATA_VADDR + 4) = envData argv ∧
      Strings (laidOut m argv envp) (EXEC_DATA_VADDR + 8) 0 argv ∧
      Strings (laidOut m argv envp) (envData argv) 0 envp ∧
      execObjects (laidOut m argv envp) argv envp = layoutObjects argv envp := by
  obtain ⟨_, -⟩ := envOffset_bounds argv
  have ends : layoutEnd argv envp = envOffset argv + 4 * (envp.length + 1) + area envp := rfl
  have start : envData argv = EXEC_DATA_VADDR + envOffset argv := rfl
  -- the environment is behind everything else
  have below : ∀ x, x < envData argv → laidOut m argv envp x = laidArguments m argv x :=
    fun x lt => laid_off (by omega) (by omega)
  have first : (laidOut m argv envp).word EXEC_DATA_VADDR = EXEC_DATA_VADDR + 8 := by
    have made : (m.setWord EXEC_DATA_VADDR (EXEC_DATA_VADDR + 8)).word EXEC_DATA_VADDR =
        EXEC_DATA_VADDR + 8 := word_setWord _ (by decide)
    refine .trans (word_congr fun x lo hi => ?_) made
    rw [below x (by omega), laidArguments, setWord_of_off _ (by omega),
      laid_off (by omega) (by omega)]
  have second : (laidOut m argv envp).word (EXEC_DATA_VADDR + 4) = envData argv := by
    refine .trans (word_congr fun x lo hi => below x (by omega)) ?_
    exact word_setWord _ (by omega)
  obtain ⟨strings, objects⟩ := @laid_strings (m.setWord EXEC_DATA_VADDR (EXEC_DATA_VADDR + 8))
    (EXEC_DATA_VADDR + 8) 0 (EXEC_DATA_VADDR + 8 + 4 * (argv.length + 1)) argv clean (by omega)
    (by omega)
  obtain ⟨strings', objects'⟩ := @laid_strings (laidArguments m argv) (envData argv) 0
    (envData argv + 4 * (envp.length + 1)) envp clean' (by omega) (by omega)
  have inside := placed_avoids objects
  have stays : ∀ x, ¬(¬(EXEC_DATA_VADDR + 8 + 4 * 0 ≤ x ∧
      x < EXEC_DATA_VADDR + 8 + 4 * (0 + argv.length + 1)) ∧
      ¬(EXEC_DATA_VADDR + 8 + 4 * (argv.length + 1) ≤ x ∧
        x < EXEC_DATA_VADDR + 8 + 4 * (argv.length + 1) + area argv)) →
      laidOut m argv envp x = laid (EXEC_DATA_VADDR + 8) 0
        (EXEC_DATA_VADDR + 8 + 4 * (argv.length + 1))
        (m.setWord EXEC_DATA_VADDR (EXEC_DATA_VADDR + 8)) argv x := by
    intro x here
    rw [below x (by omega), laidArguments, setWord_of_off _ (by omega)]
  refine ⟨first, second, (strings.congr inside stays).1, strings', ?_⟩
  rw [execObjects, first, second, stringObjects_congr inside stays, objects, laidOut, objects']
  rfl

/-- The sizes are counted before anything is written. -/
theorem setupExecData_counts (arguments : Strings m a 0 argv) (environment : Strings m e 0 envp)
    (accepted : taskSetupExec argv envp = none) (few : argv.length + envp.length < 0x40000) :
    setupExecData m a e =
      (copyStrings (EXEC_DATA_VADDR + 8) a argv.length 0
        (EXEC_DATA_VADDR + 8 + 4 * (argv.length + 1))
        (m.setWord EXEC_DATA_VADDR (EXEC_DATA_VADDR + 8))).bind fun (ptr, m) =>
          (copyStrings (roundPage ptr) e envp.length 0 (roundPage ptr + 4 * (envp.length + 1))
            (m.setWord (EXEC_DATA_VADDR + 4) (roundPage ptr))).map fun (_, m) => (none, m) := by
  have counted : vectorSize m a 4294967296 0 0 = _ :=
    vectorSize_eq arguments (by omega) (by decide)
  have counted' : vectorSize m e 4294967296 0 ((0 + area argv) % 4294967296) = _ :=
    vectorSize_eq environment (by omega) (mod_lt _ (by decide))
  have fits : ¬ARG_MAX ≤ add32 (((0 + area argv) % 4294967296 + area envp) % 4294967296)
      (4 * (0 + argv.length + (0 + envp.length) + 4)) := by
    unfold taskSetupExec at accepted
    split at accepted
    · cases accepted
    rename_i below
    rw [map_append, sum_append_nat] at below
    change ¬ARG_MAX ≤ (area argv + area envp + _) % 4294967296 at below
    unfold add32
    omega
  unfold setupExecData
  rw [counted, bind_some]
  dsimp only
  rw [counted', bind_some]
  rw [if_neg fits, zero_add, zero_add]

/-- What `task_setup_exec` leaves are strings that were still there when their turn came. -/
theorem setupExecData_gets {m' : Mem} (arguments : Strings m a 0 argv)
    (environment : Strings m e 0 envp) (accepted : taskSetupExec argv envp = none)
    (few : argv.length + envp.length < 0x40000) (done : setupExecData m a e = some (none, m')) :
    ∃ argv' envp', SourcesKept m a e argv' envp' ∧
      EXEC_DATA_VADDR + layoutEnd argv' envp' < 4294967296 ∧ laidOut m argv' envp' = m' := by
  have base : EXEC_DATA_VADDR = 0xff410000 := rfl
  have top : EXEC_TABLE_END = 0xff800000 := rfl
  rw [setupExecData_counts arguments environment accepted few, bind_eq_some_iff] at done
  obtain ⟨⟨ptr, m₁⟩, copied, rest⟩ := done
  rw [map_eq_some_iff] at rest
  obtain ⟨⟨last, m₂⟩, copied', same⟩ := rest
  cases same
  obtain ⟨argv', count, there, fits, rfl, rfl⟩ := copyStrings_some_iff.1 copied
  have first := placeStrings_end fits (by omega)
  have data : roundPage (EXEC_DATA_VADDR + 8 + 4 * (argv.length + 1) + area argv') =
      envData argv' := by
    rw [← count, AddrSpace.roundPage_whole (by unfold roundUp; omega), envData, envOffset]
    unfold roundUp
    omega
  rw [data] at copied'
  obtain ⟨envp', count', there', fits', rfl, rfl⟩ := copyStrings_some_iff.1 copied'
  have start : envData argv' = EXEC_DATA_VADDR + envOffset argv' := rfl
  obtain ⟨-, _⟩ := envOffset_bounds argv'
  have second := @placeStrings_end _ _ 4294967295 (fun o ho => (fits' o ho).trans (by decide))
    (by omega)
  rw [← count] at there
  rw [← count, ← count'] at there'
  refine ⟨argv', envp', ⟨there, there'⟩, ?_, ?_⟩
  · unfold layoutEnd
    omega
  · rw [laidOut, laidArguments, count, count']

theorem setupExecData_lays (arguments : Strings m a 0 argv) (environment : Strings m e 0 envp)
    (accepted : taskSetupExec argv envp = none) (small : layoutEnd argv envp < 0x100000)
    (kept : SourcesKept m a e argv envp) :
    setupExecData m a e = some (none, laidOut m argv envp) := by
  have base : EXEC_DATA_VADDR = 0xff410000 := rfl
  have top : EXEC_TABLE_END = 0xff800000 := rfl
  obtain ⟨_, _⟩ := envOffset_bounds argv
  have ends : layoutEnd argv envp = envOffset argv + 4 * (envp.length + 1) + area envp := rfl
  have start : envData argv = EXEC_DATA_VADDR + envOffset argv := rfl
  have copied := copyStrings_some_iff.2 ⟨argv, rfl, kept.1, fun o ho => by
    have := placeStrings_range o ho
    omega, rfl, rfl⟩
  have copied' := copyStrings_some_iff.2 ⟨envp, rfl, kept.2, fun o ho => by
    have := placeStrings_range o ho
    omega, rfl, rfl⟩
  have data : roundPage (EXEC_DATA_VADDR + 8 + 4 * (argv.length + 1) + area argv) =
      envData argv := by
    rw [AddrSpace.roundPage_whole (by unfold roundUp; omega), envData, envOffset]
    unfold roundUp
    omega
  rw [setupExecData_counts arguments environment accepted (by omega), copied, bind_some]
  dsimp only
  rw [data]
  exact congrArg (Option.map _) copied'

/-- Sources in none of the bytes that the layout fills are kept. -/
theorem sourcesKept_of_avoids (arguments : Strings m a 0 argv) (environment : Strings m e 0 envp)
    (clear : Avoids (Filled argv envp) m a 0 argv) (clear' : Avoids (Filled argv envp) m e 0 envp) :
    SourcesKept m a e argv envp := by
  constructor
  · have same : ∀ x, ¬Filled argv envp x →
        m.setWord EXEC_DATA_VADDR (EXEC_DATA_VADDR + 8) x = m x := by
      intro x out
      rw [filled_iff] at out
      exact setWord_of_off _ (by omega)
    obtain ⟨source, clear⟩ := arguments.congr clear same
    refine stillThere_of_avoids source clear ?_ ?_
    all_goals
      intro x lo hi
      exact filled_iff.2 (.inl (by omega))
  · have same : ∀ x, ¬Filled argv envp x → laidArguments m argv x = m x := by
      intro x out
      rw [filled_iff] at out
      exact laidArguments_off (by omega) (by omega)
    obtain ⟨source, clear'⟩ := environment.congr clear' same
    refine stillThere_of_avoids source clear' ?_ ?_
    all_goals
      intro x lo hi
      exact filled_iff.2 (.inr (by omega))

theorem layoutObjects_apart (argv envp : List (List UInt8)) :
    (layoutObjects argv envp).Pairwise ObjectsApart ∧ ∀ o ∈ layoutObjects argv envp,
      EXEC_DATA_VADDR ≤ o.1 ∧ o.1 + o.2 ≤ EXEC_DATA_VADDR + layoutEnd argv envp := by
  obtain ⟨_, -⟩ := envOffset_bounds argv
  have ends : layoutEnd argv envp = envOffset argv + 4 * (envp.length + 1) + area envp := rfl
  have first := @placeStrings_range (EXEC_DATA_VADDR + 8 + 4 * (argv.length + 1)) argv
  have second := @placeStrings_range
    (EXEC_DATA_VADDR + envOffset argv + 4 * (envp.length + 1)) envp
  constructor
  · unfold layoutObjects
    rw [pairwise_append]
    refine ⟨.cons ?_ (.cons ?_ placeStrings_apart), .cons ?_ placeStrings_apart, ?_⟩
    · simp only [forall_mem_cons]
      exact ⟨.inl le_rfl, fun o ho => .inl (by have := first o ho; omega)⟩
    · exact fun o ho => .inl (first o ho).1
    · exact fun o ho => .inl (second o ho).1
    · simp only [forall_mem_cons]
      refine ⟨⟨.inl ?_, fun o ho => .inl ?_⟩, ⟨.inl ?_, fun o ho => .inl ?_⟩,
        fun o ho => ⟨.inl ?_, fun o' ho' => .inl ?_⟩⟩
      · omega
      · have := second o ho
        omega
      · omega
      · have := second o ho
        omega
      · have := first o ho
        omega
      · have := first o ho
        have := second o' ho'
        omega
  · simp only [layoutObjects, cons_append, forall_mem_cons, forall_mem_append]
    refine ⟨by omega, by omega, fun o ho => ?_, by omega, fun o ho => ?_⟩
    · have := first o ho
      omega
    · have := second o ho
      omega

/-- Objects that are apart have room for their bytes in any range that they all are in. -/
theorem sum_le_of_apart {lo hi : Nat} {objects : List (Nat × Nat)}
    (apart : objects.Pairwise ObjectsApart)
    (within : ∀ o ∈ objects, lo ≤ o.1 ∧ o.1 + o.2 ≤ hi) (ordered : lo ≤ hi) :
    lo + (objects.map (·.2)).sum ≤ hi := by
  have nodup : (objects.flatMap fun o => range' o.1 o.2).Nodup := by
    rw [nodup_flatMap]
    refine ⟨fun o _ => nodup_range', apart.imp ?_⟩
    intro o _ h x hx hx'
    simp only [mem_range'_1] at hx hx'
    unfold ObjectsApart at h
    omega
  have inside : (objects.flatMap fun o => range' o.1 o.2) ⊆ range' lo (hi - lo) := by
    intro x hx
    obtain ⟨o, ho, hx⟩ := mem_flatMap.1 hx
    have := within o ho
    simp only [mem_range'_1] at hx ⊢
    omega
  have count := (subperm_of_subset nodup inside).length_le
  rw [length_flatMap, length_range'] at count
  simp only [length_range'] at count
  omega

theorem execObjects_length (m : Mem) (argv envp : List (List UInt8)) :
    ((execObjects m argv envp).map (·.2)).sum =
      8 + 4 * (argv.length + 1) + area argv + 4 * (envp.length + 1) + area envp := by
  simp only [execObjects, cons_append, map_cons, map_append, sum_cons,
    sum_append_nat, stringObjects_length]
  omega

/-- The last byte of the layout is the last of an object. -/
theorem layoutEnd_le {hi : Nat} (within : ∀ o ∈ layoutObjects argv envp, o.1 + o.2 ≤ hi) :
    EXEC_DATA_VADDR + layoutEnd argv envp ≤ hi := by
  simp only [layoutObjects, cons_append, forall_mem_cons,
    forall_mem_append] at within
  obtain ⟨-, -, -, vector, strings⟩ := within
  have ends := placeStrings_end strings vector
  unfold layoutEnd
  omega

/-- The vectors are passed on if and only if the area has room for them with the environment at the
start of a page, which the check of the sizes leaves out, and what they lead to is not overwritten
before it is copied. -/
theorem arguments_passed_iff (arguments : Strings m a 0 argv) (environment : Strings m e 0 envp)
    (accepted : taskSetupExec argv envp = none) :
    (∃ m', setupExecData m a e = some (none, m') ∧ ArgumentsPassed m m' argv envp) ↔
      layoutEnd argv envp ≤ ARG_MAX ∧ SourcesKept m a e argv envp := by
  have max : ARG_MAX = 262144 := rfl
  have base : EXEC_DATA_VADDR = 0xff410000 := rfl
  constructor
  · rintro ⟨m', done, passed⟩
    have sum := sum_le_of_apart passed.apart passed.within (by omega)
    rw [execObjects_length] at sum
    obtain ⟨argv', envp', kept, fits, rfl⟩ :=
      setupExecData_gets arguments environment accepted (by omega) done
    obtain ⟨first, second, strings, strings', objects⟩ :=
      @laidOut_spec m argv' envp' kept.1.clean kept.2.clean fits
    obtain ⟨arguments', environment', -, -, within⟩ := passed
    rw [first] at arguments'
    rw [second] at environment'
    obtain rfl := strings.unique arguments'
    obtain rfl := strings'.unique environment'
    rw [objects] at within
    have := layoutEnd_le fun o ho => (within o ho).2
    exact ⟨by omega, kept⟩
  · rintro ⟨room, kept⟩
    obtain ⟨first, second, _, _, objects⟩ :=
      @laidOut_spec m argv envp kept.1.clean kept.2.clean (by omega)
    obtain ⟨apart, within⟩ := layoutObjects_apart argv envp
    refine ⟨_, setupExecData_lays arguments environment accepted (by omega) kept, ?_⟩
    constructor
    case arguments => rwa [first]
    case environment => rwa [second]
    case apart => rwa [objects]
    case written =>
      rw [objects]
      intro x differ
      by_contra nowhere
      exact differ (laidOut_off nowhere)
    case within =>
      rw [objects]
      intro o ho
      have := within o ho
      omega

end Setup

/-- One argument of `n` bytes and one variable of `k`, with their vectors at `0x1000` and
`0x2000`. -/
def twoStrings (n k : Nat) : Mem := fun x =>
  if x = 0x1002 then 1 else if x = 0x2002 then 0x10
  else if 0x10000 ≤ x ∧ x < 0x10000 + n then 0x61
  else if 0x100000 ≤ x ∧ x < 0x100000 + k then 0x62 else 0

section TwoStrings

variable {n k : Nat}

theorem twoStrings_words (n k : Nat) : (twoStrings n k).word 0x1000 = 0x10000 ∧
    (twoStrings n k).word 0x1004 = 0 ∧ (twoStrings n k).word 0x2000 = 0x100000 ∧
    (twoStrings n k).word 0x2004 = 0 := by
  simp [word, twoStrings]

variable (few : n < 0xf0000) (less : k < 0xf0000)
include few less

theorem twoStrings_strings : Strings (twoStrings n k) 0x1000 0 [replicate n 0x61] ∧
    Strings (twoStrings n k) 0x2000 0 [replicate k 0x62] := by
  have words := twoStrings_words n k
  have bytes : CString (twoStrings n k) 0x10000 (replicate n 0x61) ∧
      CString (twoStrings n k) 0x100000 (replicate k 0x62) := by
    rw [cString_replicate (by decide), cString_replicate (by decide)]
    refine ⟨⟨fun j hj => ?_, ?_⟩, fun j hj => ?_, ?_⟩
    all_goals simp only [twoStrings]
    · rw [if_neg (by omega), if_neg (by omega), if_pos (by omega)]
    · rw [if_neg (by omega), if_neg (by omega), if_neg (by omega), if_neg (by omega)]
    · rw [if_neg (by omega), if_neg (by omega), if_neg (by omega), if_pos (by omega)]
    · rw [if_neg (by omega), if_neg (by omega), if_neg (by omega), if_neg (by omega)]
  simp only [Strings, mul_zero, add_zero, zero_add, mul_one, Nat.reduceAdd, words,
    length_replicate, bytes, and_true]
  omega

theorem twoStrings_kept : SourcesKept (twoStrings n k) 0x1000 0x2000 [replicate n 0x61]
    [replicate k 0x62] := by
  obtain ⟨first, -, second, -⟩ := twoStrings_words n k
  obtain ⟨argv, envp⟩ := twoStrings_strings few less
  have base : EXEC_DATA_VADDR = 0xff410000 := rfl
  have high : ∀ x, x < EXEC_DATA_VADDR → ¬Filled [replicate n 0x61] [replicate k 0x62] x := by
    intro x low
    rw [filled_iff, envData]
    omega
  refine sourcesKept_of_avoids argv envp ?_ ?_
  all_goals
    simp only [Avoids, mul_zero, add_zero, zero_add, mul_one, first, second, length_replicate]
    refine ⟨fun x _ _ => high x ?_, fun x _ _ => high x ?_, fun x _ _ => high x ?_⟩
  all_goals omega

end TwoStrings

theorem twoStrings_accepted {n k : Nat} (fits : n + k + 26 < ARG_MAX) :
    taskSetupExec [replicate n 0x61] [replicate k 0x62] = none := by
  unfold ARG_MAX at fits
  unfold taskSetupExec ARG_MAX
  simp only [cons_append, nil_append, map_cons, map_nil, sum_cons,
    sum_nil, length_replicate, length_cons, length_nil]
  rw [if_neg (by omega)]

theorem twoStrings_layout (n k : Nat) :
    layoutEnd [replicate n 0x61] [replicate k 0x62] = roundUp (16 + (n + 1)) + 8 + (k + 1) := by
  simp only [layoutEnd, envOffset, area_cons, area_nil, length_replicate, length_cons,
    length_nil, zero_add, add_zero, Nat.reduceAdd, Nat.reduceMul]

/-- The vectors `{"a", NULL}` and `{"b", NULL}`. -/
theorem arguments_passed_iff_short :
    ∃ m', setupExecData (twoStrings 1 1) 0x1000 0x2000 = some (none, m') ∧
      ArgumentsPassed (twoStrings 1 1) m' [List.replicate 1 0x61] [List.replicate 1 0x62] := by
  have few : 1 < 0xf0000 := by decide
  obtain ⟨argv, envp⟩ := twoStrings_strings few few
  refine (arguments_passed_iff argv envp (twoStrings_accepted (by decide))).2 ⟨?_, ?_⟩
  · decide
  · exact twoStrings_kept few few

/-- The memory of a program that was given the argument `aaaaaaaa` and passes `zzzz` in front of
it: the string is at `EXEC_DATA_VADDR + 16`. -/
def ownArgument : Mem := fun x =>
  if EXEC_DATA_VADDR + 16 ≤ x ∧ x < EXEC_DATA_VADDR + 24 then 0x61
  else if x = 0x1001 then 0x30
  else if x = 0x1004 then 0x10 else if x = 0x1006 then 0x41 else if x = 0x1007 then 0xff
  else if 0x3000 ≤ x ∧ x < 0x3004 then 0x7a else 0

/-- An argument of 4080 bytes and a variable of 258037 are accepted, and the variable goes past the
end of the area. A program that passes its own argument as the second one is accepted as well, and
the first one has been copied over it. -/
theorem environment_leaves_exec_data :
    (Strings (twoStrings 4080 258037) 0x1000 0 [List.replicate 4080 0x61] ∧
      Strings (twoStrings 4080 258037) 0x2000 0 [List.replicate 258037 0x62] ∧
      taskSetupExec [List.replicate 4080 0x61] [List.replicate 258037 0x62] = none ∧
      ¬∃ m', setupExecData (twoStrings 4080 258037) 0x1000 0x2000 = some (none, m') ∧
        ArgumentsPassed (twoStrings 4080 258037) m' [List.replicate 4080 0x61]
          [List.replicate 258037 0x62]) ∧
    (Strings ownArgument 0x1000 0 [List.replicate 4 0x7a, List.replicate 8 0x61] ∧
      Strings ownArgument 0x2000 0 [] ∧
      taskSetupExec [List.replicate 4 0x7a, List.replicate 8 0x61] [] = none ∧
      ¬∃ m', setupExecData ownArgument 0x1000 0x2000 = some (none, m') ∧
        ArgumentsPassed ownArgument m' [List.replicate 4 0x7a, List.replicate 8 0x61] []) := by
  constructor
  · have few : 4080 < 0xf0000 := by decide
    have less : 258037 < 0xf0000 := by decide
    have ends := twoStrings_layout 4080 258037
    obtain ⟨argv, envp⟩ := twoStrings_strings few less
    have accepted := @twoStrings_accepted 4080 258037 (by decide)
    have kept := twoStrings_kept few less
    refine ⟨argv, envp, accepted, ?_⟩
    rintro ⟨m', done, passed⟩
    rw [setupExecData_lays argv envp accepted (by rw [ends]; decide) kept] at done
    cases done
    obtain ⟨-, -, -, -, objects⟩ := @laidOut_spec (twoStrings 4080 258037) _ _
      kept.1.clean kept.2.clean (by rw [ends]; decide)
    have within := passed.within
    rw [objects] at within
    have beyond := layoutEnd_le fun o ho => (within o ho).2
    rw [ends] at beyond
    exact absurd beyond (by decide)
  · refine ⟨?_, ?_, by decide +kernel, ?_⟩
    · simp only [Strings, CString, List.replicate]
      decide +kernel
    · rw [Strings]
      decide +kernel
    · rintro ⟨m', done, passed⟩
      have bytes : (setupExecData ownArgument 0x1000 0x2000).map (fun x =>
          (x.2.word EXEC_DATA_VADDR, x.2 (x.2.word (EXEC_DATA_VADDR + 12) + 4))) =
          some (EXEC_DATA_VADDR + 8, 0x7a) := by decide +kernel
      rw [done] at bytes
      simp only [Option.map_some, Option.some.injEq, Prod.mk.injEq] at bytes
      obtain ⟨-, -, -, -, -, string, -⟩ := passed.arguments
      rw [bytes.1] at string
      have fifth := ((cString_replicate (by decide)).1 string).1 4 (by decide)
      exact absurd (bytes.2.symm.trans fifth) (by decide)

end Os0

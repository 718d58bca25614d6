import Os0.Fs.Ext2.Dir
import Os0.Lib.RecordMap

/-! The records of a directory block as a row of records in the sense of `RecordMap`, and what
the record functions do with it. -/
namespace Os0

open Bytes Mem RecordMap List Option

/-- A record of a directory: a name and an inode. -/
abbrev DirRecord := Record (List UInt8) Nat

/-! ## The fields of a record -/

section

variable {b b' : Mem} {o : Nat} {name : List UInt8}

variable {i fuel ino : Nat}

theorem dInode_congr (h : AgreeOn o (o + 4) b b') : dInode b' o = dInode b o := word_congr h

theorem dRecLen_congr (h : AgreeOn (o + 4) (o + 6) b b') : dRecLen b' o = dRecLen b o :=
  half_congr h

theorem dNameLen_congr (h : AgreeOn (o + 6) (o + 8) b b') : dNameLen b' o = dNameLen b o :=
  half_congr h

theorem dName_congr (h : AgreeOn (o + 8) (o + 8 + i + 1) b b') :
    dName b' o i = dName b o i := h _ (by omega) (by omega)

theorem sameName_iff :
    sameName b o name = true ↔ ∀ i < name.length, dName b o i = name.getD i 0 := by
  simp [sameName]

/-! ## Records -/

/-- The record at `o` is in use for a name. -/
structure Named (b : Mem) (o : Nat) (name : List UInt8) : Prop where
  length : nameLength b o = name.length
  nonempty : name ≠ []
  bytes : ∀ i < name.length, dName b o i = name.getD i 0

/-- The bytes at `o` show the record `r`. -/
structure RecordAt (bs : Nat) (b : Mem) (o : Nat) (r : DirRecord) : Prop where
  len : ext2GetRecLen bs (dRecLen b o) = r.len
  low : 12 ≤ r.len
  aligned : r.len % 4 = 0
  fits : nameLength b o + 8 ≤ r.len
  unused : r.entry = none → dInode b o = 0
  used : ∀ name ino, r.entry = some (name, ino) → dInode b o = ino ∧ ino ≠ 0 ∧ Named b o name

/-- The bytes from `o` to `fin` show a row of records. -/
def Records (bs : Nat) (b : Mem) : Nat → List DirRecord → Nat → Prop
  | o, [], fin => o = fin
  | o, r :: rs, fin => RecordAt bs b o r ∧ Records bs b (o + r.len) rs fin

theorem Named.congr (h : Named b o name) (agree : AgreeOn (o + 6) (o + 8 + name.length) b b') :
    Named b' o name where
  length := by
    rw [nameLength, dNameLen_congr (agree.mono (by omega) (by omega))]
    exact h.length
  nonempty := h.nonempty
  bytes i hi := by
    rw [dName_congr (agree.mono (by omega) (by omega))]
    exact h.bytes i hi

/-- Equal lengths and bytes are equal names. -/
theorem Named.unique {name' : List UInt8} (h : Named b o name)
    (length : nameLength b o = name'.length)
    (bytes : sameName b o name' = true) : name' = name := by
  have lengths : name'.length = name.length := length.symm.trans h.length
  apply ext_getElem lengths
  intro i hi hi'
  have one := sameName_iff.1 bytes i hi
  have two := h.bytes i hi'
  simp only [getD_eq_getElem?_getD, getElem?_eq_getElem hi, getD_some] at one
  simp only [getD_eq_getElem?_getD, getElem?_eq_getElem hi', getD_some] at two
  exact one.symm.trans two

variable {bs fin : Nat} {r : DirRecord} {rs : List DirRecord}

theorem RecordAt.congr (h : RecordAt bs b o r) (agree : AgreeOn o (o + r.len) b b') :
    RecordAt bs b' o r := by
  have low := h.low
  have length : nameLength b' o = nameLength b o := by
    rw [nameLength, dNameLen_congr (agree.mono (by omega) (by omega))]
    rfl
  constructor
  case len =>
    rw [dRecLen_congr (agree.mono (by omega) (by omega))]
    exact h.len
  case low => exact low
  case aligned => exact h.aligned
  case fits => exact length ▸ h.fits
  case unused =>
    rw [dInode_congr (agree.mono (by omega) (by omega))]
    exact h.unused
  case used =>
    intro name ino entry
    obtain ⟨inode, nonzero, named⟩ := h.used name ino entry
    have fits := h.fits
    rw [named.length] at fits
    rw [dInode_congr (agree.mono (by omega) (by omega))]
    exact ⟨inode, nonzero, named.congr (agree.mono (by omega) (by omega))⟩

theorem Records.le (h : Records bs b o rs fin) : o ≤ fin := by
  induction rs generalizing o with
  | nil => exact h.le
  | cons r rs ih =>
    have := ih h.2
    omega

theorem Records.congr (h : Records bs b o rs fin) (agree : AgreeOn o fin b b') :
    Records bs b' o rs fin := by
  induction rs generalizing o with
  | nil => exact h
  | cons r rs ih =>
    have := h.2.le
    exact ⟨h.1.congr (agree.mono le_rfl (by omega)),
      ih h.2 (agree.mono (by omega) le_rfl)⟩

/-! ## One turn of the loop -/

theorem RecordAt.ok (h : RecordAt bs b o r) (inside : o + r.len ≤ bs) : recordOk bs b o = true := by
  have aligned := h.aligned
  have fits := h.fits
  simp only [recordOk, h.len]
  simp
  omega

section

variable {σ : Type} {empty : Bool} {func : DirentFunc σ} {fuel : Nat} {last bits : DirentBits}
  {changed : Bool} {s t : DirState σ}

section

variable (at_o : RecordAt bs b o r) (inside : o + r.len ≤ bs)
  (visited : dInode b o ≠ 0 ∨ empty = true) (call : func b o s = (bits, b', t))
include at_o inside visited call

theorem scanBlock_visit :
    scanBlock empty func bs (fuel + 1) o last changed b s =
      if bits.abort then .ends bits (changed || bits.changed) true b' t
      else scanBlock empty func bs fuel
        (o + ext2GetRecLen bs (dRecLen (if bits.changed then b' else b) o)) bits
        (changed || bits.changed) b' t := by
  have low := at_o.low
  rw [scanBlock, if_neg (by omega), if_neg (by simp [at_o.ok inside]), if_neg (by
    rcases visited with used | all
    · simp [used]
    · simp [all]), call]

theorem scanBlock_next (continues : bits.abort = false) :
    scanBlock empty func bs (fuel + 1) o last changed b s =
      scanBlock empty func bs fuel
        (o + ext2GetRecLen bs (dRecLen (if bits.changed then b' else b) o)) bits
        (changed || bits.changed) b' t := by
  rw [scanBlock_visit at_o inside visited call, continues]
  rfl

theorem scanBlock_stop (ends : bits.abort = true) :
    scanBlock empty func bs (fuel + 1) o last changed b s =
      .ends bits (changed || bits.changed) true b' t := by
  rw [scanBlock_visit at_o inside visited call, if_pos ends]

end

theorem scanBlock_end :
    scanBlock empty func bs fuel bs last changed b s = .ends last changed false b s := by
  cases fuel with
  | zero => rfl
  | succ fuel => rw [scanBlock, if_pos (by omega)]

end

/-! ## Records for a name -/

theorem RecordAt.has_iff (h : RecordAt bs b o r) (used : dInode b o ≠ 0) (name : List UInt8) :
    r.has name = true ↔ nameLength b o = name.length ∧ sameName b o name = true := by
  obtain ⟨_, entry⟩ := r
  cases entry with
  | none => exact absurd (h.unused rfl) used
  | some e =>
    obtain ⟨name', ino⟩ := e
    obtain ⟨-, -, named⟩ := h.used name' ino rfl
    simp only [Record.has, any_some, decide_eq_true_eq]
    constructor
    · rintro rfl
      exact ⟨named.length, sameName_iff.2 named.bytes⟩
    · rintro ⟨length, bytes⟩
      exact (named.unique length bytes).symm

theorem RecordAt.has_unused (h : RecordAt bs b o r) (unused : dInode b o = 0)
    (name : List UInt8) : r.has name = false := by
  cases entry : r.entry with
  | none => simp [Record.has, entry]
  | some e => exact absurd unused ((h.used e.1 e.2 entry).1 ▸ (h.used e.1 e.2 entry).2.1)

/-! ## Looking for entries besides `.` and `..` -/

/-- The offsets of the records of a row. -/
def offsets : Nat → List DirRecord → List Nat
  | _, [] => []
  | o, r :: rs => o :: offsets (o + r.len) rs

/-- The loop with `ext2_check_empty` ends at the first other record, in use or not. -/
theorem scan_empty {s : DirState Bool} (recs : Records bs b o rs bs) (enough : bs ≤ o + fuel) :
    scanBlock true ext2CheckEmpty bs fuel o .none false b s =
      if (offsets o rs).all (isDots b) then .ends .none false false b s
      else .ends ⟨false, true⟩ false true b { s with priv := false } := by
  induction rs generalizing o fuel with
  | nil =>
    obtain rfl : o = bs := recs
    exact scanBlock_end
  | cons r rs ih =>
    obtain ⟨at_o, rest⟩ := recs
    have inside := rest.le
    have low := at_o.low
    obtain ⟨fuel, rfl⟩ : ∃ n, fuel = n + 1 := ⟨fuel - 1, by omega⟩
    by_cases dots : isDots b o = true
    · have call : ext2CheckEmpty b o s = (.none, b, s) := if_pos dots
      rw [scanBlock_next at_o inside (.inr rfl) call rfl]
      simpa [offsets, dots, DirentBits.none, at_o.len] using @ih _ fuel rest (by omega)
    · have call : ext2CheckEmpty b o s = (⟨false, true⟩, b, { s with priv := false }) :=
        if_neg dots
      rw [scanBlock_stop at_o inside (.inr rfl) call rfl]
      simp [offsets, dots]

/-! ## Removing an entry -/

section Unlink

variable {ino fuel : Nat} {s : DirState UnlinkState}

variable {p : Nat} {scan : Scan UnlinkState}

theorem RecordAt.isEntry_iff (h : RecordAt bs b o r) :
    isEntry b o name = true ↔ r.has name = true := by
  by_cases unused : dInode b o = 0
  · have no : r.has name = false := h.has_unused unused name
    simp [isEntry, unused, no]
  · rw [h.has_iff unused name]
    simp [isEntry, unused]

/-- What becomes of the entry does not depend on what the record function keeps. -/
theorem releaseEntry_priv {σ τ : Type} (ino : Nat) (s : DirState σ) (q : τ) :
    releaseEntry ino (⟨s.fs, s.dir, q⟩ : DirState τ) =
      ((releaseEntry ino s).1, ⟨(releaseEntry ino s).2.fs, (releaseEntry ino s).2.dir, q⟩) := by
  unfold releaseEntry DirState.onFs
  cases (ext2ReadInode ino s.fs).1 with
  | error e => rfl
  | ok inode =>
    by_cases directory : isType inode.mode S_IFDIR = true
    · simp only [if_pos directory]
      generalize (ext2DirIterate true ext2CheckEmpty _).2 = t
      generalize dropLink ino inode = drop
      cases t.priv with
      | true => rfl
      | false => rfl
    · simp only [if_neg directory]

/-- How the loop of `ext2_process_dir_block` ends with `ext2_process_unlink`. -/
def Unlinks (b : Mem) (name : List UInt8) (rs : List DirRecord) (s : DirState UnlinkState)
    (scan : Scan UnlinkState) : Prop :=
  match find name (entries rs) with
  | none => ∃ p, scan = .ends .none false false b { s with priv := { s.priv with prev := p } }
  | some ino =>
    let t := (releaseEntry ino s).2
    if (releaseEntry ino s).1 then
      ∃ b' p, scan = .ends ⟨true, true⟩ true true b' { t with priv := ⟨p, true, s.priv.err⟩ }
    else ∃ p, scan = .ends ⟨false, true⟩ false true b
      { t with priv := ⟨p, s.priv.done, some (.call .ENOTEMPTY)⟩ }

theorem processUnlink_entry (entry : isEntry b o name = true) (inode : dInode b o = ino) :
    ext2ProcessUnlink name b o s =
      if (releaseEntry ino s).1 then
        (⟨true, true⟩, removeRecord b s.priv.prev o,
          { (releaseEntry ino s).2 with priv := ⟨o, true, s.priv.err⟩ })
      else
        (⟨false, true⟩, b, { (releaseEntry ino s).2 with
          priv := ⟨o, s.priv.done, some (.call .ENOTEMPTY)⟩ }) := by
  rw [ext2ProcessUnlink, if_neg (by simp [entry]), inode]
  rw [releaseEntry_priv ino s]

theorem scan_unlink_entry (at_o : RecordAt bs b o r) (inside : o + r.len ≤ bs)
    (has : r.has name = true) :
    Unlinks b name (r :: rs) s
      (scanBlock true (ext2ProcessUnlink name) bs (fuel + 1) o .none false b s) := by
  obtain ⟨ino, entry⟩ := Record.has_iff.1 has
  have call := processUnlink_entry (s := s) (at_o.isEntry_iff.2 has) (at_o.used name ino entry).1
  rw [Unlinks, find_entries_cons, if_pos has, entry, map_some]
  dsimp only
  split_ifs at call ⊢ with goes
  · exact ⟨_, o, scanBlock_stop at_o inside (.inr rfl) call rfl⟩
  · exact ⟨o, scanBlock_stop at_o inside (.inr rfl) call rfl⟩

theorem scan_unlink_other (at_o : RecordAt bs b o r) (inside : o + r.len ≤ bs)
    (other : ¬r.has name = true) :
    scanBlock true (ext2ProcessUnlink name) bs (fuel + 1) o .none false b s =
      scanBlock true (ext2ProcessUnlink name) bs fuel (o + r.len) .none false b
        { s with priv := { s.priv with prev := o } } := by
  have call : ext2ProcessUnlink name b o s =
      (.none, b, { s with priv := { s.priv with prev := o } }) := by
    rw [ext2ProcessUnlink, if_pos (by simpa [← at_o.isEntry_iff] using other)]
  rw [scanBlock_next at_o inside (.inr rfl) call rfl]
  simp only [DirentBits.none, Bool.false_eq_true, if_false, at_o.len, Bool.or_false]

theorem Unlinks.skip
    (h : Unlinks b name rs { s with priv := { s.priv with prev := p } } scan)
    (other : ¬r.has name = true) : Unlinks b name (r :: rs) s scan := by
  unfold Unlinks at h ⊢
  rw [find_entries_cons, if_neg other]
  cases found : find name (entries rs) with
  | none =>
    rw [found] at h
    exact h
  | some ino =>
    rw [found] at h
    dsimp only at h ⊢
    rw [releaseEntry_priv ino s] at h
    exact h

/-- The loop with `ext2_process_unlink` ends at the entry of the name. -/
theorem scan_unlink (recs : Records bs b o rs bs) (enough : bs ≤ o + fuel) :
    Unlinks b name rs s
      (scanBlock true (ext2ProcessUnlink name) bs fuel o .none false b s) := by
  induction rs generalizing o fuel s with
  | nil =>
    obtain rfl : o = bs := recs
    rw [scanBlock_end]
    exact ⟨s.priv.prev, rfl⟩
  | cons r rs ih =>
    obtain ⟨at_o, rest⟩ := recs
    have inside := rest.le
    have low := at_o.low
    obtain ⟨fuel, rfl⟩ : ∃ n, fuel = n + 1 := ⟨fuel - 1, by omega⟩
    by_cases has : r.has name = true
    · exact scan_unlink_entry at_o inside has
    · rw [scan_unlink_other at_o inside has]
      exact (ih rest (by omega)).skip has

end Unlink

end

end Os0

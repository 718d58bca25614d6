import Os0.Drivers.Ata

/-! Block devices as arrays of bytes: what a read gives and what a write changes. -/
namespace Os0

open Bytes Slice Function List Cmd

theorem sectsize : ATA_SECTSIZE = 512 := by
  unfold ATA_SECTSIZE
  rfl

theorem mul_sectsize (n : Nat) : n * ATA_SECTSIZE = 512 * n := by
  rw [sectsize, Nat.mul_comm]

namespace Ata

variable {s t : Ata} {drive nsects lba pos skip n len offset : Nat} {area : Area}

/-! ## The sectors of a range -/

/-- What the numbers of `span` are where `offset + len` does not wrap. -/
structure Span.Exact (p : Span) (len offset : Nat) : Prop where
  startLba : p.startLba = offset / 512
  midLba : p.midLba = (offset + 511) / 512
  endLba : p.endLba = (offset + len) / 512
  sectors : p.midLba ≤ p.endLba → p.sectors = p.endLba - p.midLba
  startDiff : offset + p.startDiff = 512 * p.midLba
  endDiff : 512 * p.endLba + p.endDiff = offset + len

section

variable (low : offset < 2147483648)
include low

theorem sectorOf_low : sectorOf offset = offset / 512 := by
  rw [sectorOf, if_pos low, sectsize]

theorem span_midLba (len : Nat) : (span len offset).midLba = (offset + 511) / 512 := by
  simp only [span, sectsize, sectorOf_low low]
  by_cases aligned : offset % 512 = 0
  · rw [if_neg (by omega), add32_eq (by omega)]
    omega
  · rw [if_pos aligned, add32_eq (by omega)]
    omega

theorem span_single (len : Nat) :
    (span len offset).single = true ↔ (span len offset).endLba < (span len offset).midLba := by
  have mid := span_midLba low len
  simp only [Span.single, Bool.and_eq_true, decide_eq_true_eq]
  omega

theorem span_exact (small : offset + len < 4294967296) : (span len offset).Exact len offset := by
  have mid := span_midLba low len
  have stop : (span len offset).endLba = (offset + len) / 512 := by
    simp only [span, sectsize, add32_eq small]
  constructor
  case startLba => exact sectorOf_low low
  case midLba => exact mid
  case endLba => exact stop
  case sectors =>
    intro le
    have eq : (span len offset).sectors = sub32 (span len offset).endLba (span len offset).midLba :=
      rfl
    rw [eq, sub32_eq le (by omega)]
  case startDiff =>
    have eq : (span len offset).startDiff = sub32 ((span len offset).midLba * ATA_SECTSIZE) offset :=
      rfl
    rw [eq, mul_sectsize, mid, sub32_eq (by omega) (by omega)]
    omega
  case endDiff =>
    have eq : (span len offset).endDiff =
      sub32 (add32 offset len) ((span len offset).endLba * ATA_SECTSIZE) := rfl
    rw [eq, mul_sectsize, stop, add32_eq small, sub32_eq (by omega) (by omega)]
    omega

end

/-! ## Transfers that succeed -/

theorem accepts_iff : s.accepts drive nsects lba = true ↔
    drive ≤ 3 ∧ (s.devices drive).reserved = true ∧
      add32 lba nsects ≤ (s.devices drive).size.toNat := by
  simp [accepts, and_assoc]

theorem load_run (inside : pos + n ≤ s.room area) :
    load area pos n s = (.ok (slice (s.bytes area) pos n), s) := by
  unfold load
  rw [get_bind, if_pos inside]
  rfl

theorem save_run {data : List UInt8} (inside : pos + data.length ≤ s.room area) :
    save area pos data s = (.ok (), s.put (store (s.bytes area) pos data) area) := by
  unfold save
  rw [get_bind, if_pos inside]
  rfl

theorem ataReadSectors_run (acc : s.accepts drive nsects lba = true)
    (ata : (s.devices drive).type = .ata) (inside : pos + nsects * ATA_SECTSIZE ≤ s.room area) :
    ataReadSectors drive nsects lba area pos s =
      (.ok (), s.put (store (s.bytes area) pos
        (slice (s.disk drive) (lba * ATA_SECTSIZE) (nsects * ATA_SECTSIZE))) area) := by
  unfold ataReadSectors
  rw [get_bind, if_pos acc, ata]
  exact save_run (by simpa using inside)

theorem ataWriteSectors_run (acc : s.accepts drive nsects lba = true)
    (ata : (s.devices drive).type = .ata) (inside : pos + nsects * ATA_SECTSIZE ≤ s.room area) :
    ataWriteSectors drive nsects lba area pos s =
      (.ok (), { s with
        disk := update s.disk drive (store (s.disk drive) (lba * ATA_SECTSIZE)
          (slice (s.bytes area) pos (nsects * ATA_SECTSIZE))) }) := by
  unfold ataWriteSectors
  rw [get_bind, if_pos acc, ata]
  exact bind_ok (load_run inside)

theorem sector_inside : 0 + 1 * ATA_SECTSIZE ≤ s.room .temp := by
  simp [room]

theorem readThrough_run (acc : s.accepts drive 1 lba = true)
    (ata : (s.devices drive).type = .ata) (part : skip + n ≤ ATA_SECTSIZE)
    (inside : pos + n ≤ s.len) :
    ∃ temp, readThrough drive lba skip pos n s =
      (.ok (), { s with
        temp, buffer := store s.buffer pos (slice (s.disk drive) (lba * ATA_SECTSIZE + skip) n) }) := by
  have sector : slice (store s.temp 0 (slice (s.disk drive) (lba * ATA_SECTSIZE)
      (1 * ATA_SECTSIZE))) skip n = slice (s.disk drive) (lba * ATA_SECTSIZE + skip) n := by
    refine map_congr_left fun i mem => ?_
    have := mem_range.1 mem
    rw [store_slice_apply, if_pos (by omega)]
    congr 1
    omega
  unfold readThrough
  rw [bind_ok (ataReadSectors_run acc ata sector_inside), bind_ok (load_run part),
    save_run (by simpa [room] using inside)]
  simp only [put, bytes, sector]
  exact ⟨_, rfl⟩

theorem writeThrough_run (acc : s.accepts drive 1 lba = true)
    (ata : (s.devices drive).type = .ata) (part : skip + n ≤ ATA_SECTSIZE)
    (inside : pos + n ≤ s.len) :
    ∃ temp, writeThrough drive lba skip pos n s =
      (.ok (), { s with
        temp
        disk := update s.disk drive
          (store (s.disk drive) (lba * ATA_SECTSIZE + skip) (slice s.buffer pos n)) }) := by
  have sector : store (s.disk drive) (lba * ATA_SECTSIZE)
      (slice (store (store s.temp 0 (slice (s.disk drive) (lba * ATA_SECTSIZE)
        (1 * ATA_SECTSIZE))) skip (slice s.buffer pos n)) 0 (1 * ATA_SECTSIZE)) =
      store (s.disk drive) (lba * ATA_SECTSIZE + skip) (slice s.buffer pos n) := by
    funext x
    simp only [store_slice_apply]
    split
    · split
      · rw [if_pos (by omega)]
        congr 1
        omega
      · rw [if_pos (by omega), if_neg (by omega)]
        congr 1
        omega
    · rw [if_neg (by omega)]
  unfold writeThrough
  rw [bind_ok (ataReadSectors_run acc ata sector_inside), bind_ok (load_run inside),
    bind_ok (save_run (by simpa [room] using part)),
    ataWriteSectors_run (by simpa using acc) (by simpa using ata) sector_inside]
  simp only [put, bytes, sector]
  exact ⟨_, rfl⟩

/-! ## Reads and writes that succeed -/

/-- A device whose transfers go to the sectors of an ATA drive from `first` on. -/
structure Serves (s : Ata) (dev : SpecDevice) (drive first : Nat) : Prop where
  target : driveOf dev = drive
  base : partOffset dev = first
  low : drive ≤ 3
  reserved : (s.devices drive).reserved = true
  ata : (s.devices drive).type = .ata

variable {dev : SpecDevice} {first : Nat}

theorem Serves.accepts (h : Serves s dev drive first)
    (inside : lba + first + nsects ≤ (s.devices drive).size.toNat) :
    s.accepts drive nsects (add32 lba first) = true ∧ add32 lba first = lba + first := by
  have size := (s.devices drive).size.toNat_lt
  have sum : add32 lba first = lba + first := add32_eq (by omega)
  constructor
  · rw [accepts_iff, sum, add32_eq (by omega)]
    exact ⟨h.low, h.reserved, inside⟩
  · exact sum

theorem Serves.congr (h : Serves s dev drive first) (same : t.devices = s.devices) :
    Serves t dev drive first :=
  ⟨h.target, h.base, h.low, by rw [same, h.reserved], by rw [same, h.ata]⟩

/-- A part of a read: the bytes `[lo, hi)` of the buffer come from the disk. -/
structure Fetched (drive origin lo hi : Nat) (s t : Ata) : Prop where
  devices : t.devices = s.devices
  disk : t.disk = s.disk
  len : t.len = s.len
  buffer : ∀ i, t.buffer i = if lo ≤ i ∧ i < hi then s.disk drive (origin + i) else s.buffer i

/-- A part of a write: the bytes `[lo, hi)` of the buffer go to the disk. -/
structure Stored (drive origin lo hi : Nat) (s t : Ata) : Prop where
  devices : t.devices = s.devices
  buffer : t.buffer = s.buffer
  len : t.len = s.len
  others : ∀ d ≠ drive, t.disk d = s.disk d
  disk : ∀ x, t.disk drive x =
    if origin + lo ≤ x ∧ x < origin + hi then s.buffer (x - origin) else s.disk drive x

section Parts

variable {origin lo hi lo' hi' a b : Nat} {u : Ata}

/-- The ranges `[lo, hi)` and `[lo', hi')` touch and make up `[a, b)`. -/
def Joins (lo hi lo' hi' a b : Nat) : Prop :=
  lo ≤ hi ∧ lo' ≤ hi' ∧ (hi = lo' ∧ a = lo ∧ b = hi' ∨ hi' = lo ∧ a = lo' ∧ b = hi)

theorem Fetched.none : Fetched drive origin lo lo s s :=
  ⟨rfl, rfl, rfl, fun i => (if_neg (by omega)).symm⟩

theorem Stored.none : Stored drive origin lo lo s s :=
  ⟨rfl, rfl, rfl, fun _ _ => rfl, fun i => (if_neg (by omega)).symm⟩

theorem Fetched.trans (h : Fetched drive origin lo hi s t) (h' : Fetched drive origin lo' hi' t u)
    (joins : Joins lo hi lo' hi' a b) : Fetched drive origin a b s u where
  devices := h'.devices.trans h.devices
  disk := h'.disk.trans h.disk
  len := h'.len.trans h.len
  buffer i := by
    unfold Joins at joins
    rw [h'.buffer, h.buffer, h.disk]
    split
    · rw [if_pos (by omega)]
    · split
      · rw [if_pos (by omega)]
      · rw [if_neg (by omega)]

theorem Stored.trans (h : Stored drive origin lo hi s t) (h' : Stored drive origin lo' hi' t u)
    (joins : Joins lo hi lo' hi' a b) : Stored drive origin a b s u where
  devices := h'.devices.trans h.devices
  buffer := h'.buffer.trans h.buffer
  len := h'.len.trans h.len
  others d ne := (h'.others d ne).trans (h.others d ne)
  disk x := by
    unfold Joins at joins
    rw [h'.disk, h.disk, h.buffer]
    split
    · rw [if_pos (by omega)]
    · split
      · rw [if_pos (by omega)]
      · rw [if_neg (by omega)]

section Through

variable (h : Serves s dev drive first)
  (inside : lba + first + 1 ≤ (s.devices drive).size.toNat) (part : skip + n ≤ 512)
  (room : pos + n ≤ s.len) (place : 512 * (lba + first) + skip = origin + pos)
include h inside part room place

theorem Serves.readThrough :
    Cmd.Ends (Ata.readThrough drive (add32 lba first) skip pos n) s
      (fun _ t => Fetched drive origin pos (pos + n) s t) fun _ _ => False := by
  obtain ⟨acc, sum⟩ := h.accepts inside
  obtain ⟨_, run⟩ := readThrough_run acc h.ata (sectsize ▸ part) room
  refine ends_run run ⟨rfl, rfl, rfl, fun i => ?_⟩
  simp only [store_slice_apply, sum, mul_sectsize]
  split
  · congr 1
    omega
  · rfl

theorem Serves.writeThrough :
    Cmd.Ends (Ata.writeThrough drive (add32 lba first) skip pos n) s
      (fun _ t => Stored drive origin pos (pos + n) s t) fun _ _ => False := by
  obtain ⟨acc, sum⟩ := h.accepts inside
  obtain ⟨_, run⟩ := writeThrough_run acc h.ata (sectsize ▸ part) room
  refine ends_run run ⟨rfl, rfl, rfl, fun d ne => update_of_ne ne _ _, fun x => ?_⟩
  simp only [update_self, store_slice_apply, sum, mul_sectsize, place, Nat.add_assoc]
  split
  · congr 1
    omega
  · rfl

end Through

section Whole

variable (h : Serves s dev drive first)
  (inside : lba + first + nsects ≤ (s.devices drive).size.toNat)
  (room : pos + 512 * nsects ≤ s.len) (place : 512 * (lba + first) = origin + pos)
include h inside room place

theorem Serves.readSectors :
    Cmd.Ends (ataReadSectors drive nsects (add32 lba first) .buffer pos) s
      (fun _ t => Fetched drive origin pos (pos + 512 * nsects) s t) fun _ _ => False := by
  obtain ⟨acc, sum⟩ := h.accepts inside
  have inside' : pos + nsects * ATA_SECTSIZE ≤ s.room .buffer := by
    simpa [Ata.room, mul_sectsize] using room
  have run := ataReadSectors_run acc h.ata inside'
  refine ends_run run ⟨rfl, rfl, rfl, fun i => ?_⟩
  simp only [put, bytes, store_slice_apply, sum, mul_sectsize]
  split
  · congr 1
    omega
  · rfl

theorem Serves.writeSectors :
    Cmd.Ends (ataWriteSectors drive nsects (add32 lba first) .buffer pos) s
      (fun _ t => Stored drive origin pos (pos + 512 * nsects) s t) fun _ _ => False := by
  obtain ⟨acc, sum⟩ := h.accepts inside
  have inside' : pos + nsects * ATA_SECTSIZE ≤ s.room .buffer := by
    simpa [Ata.room, mul_sectsize] using room
  have run := ataWriteSectors_run acc h.ata inside'
  refine ends_run run ⟨rfl, rfl, rfl, fun d ne => update_of_ne ne _ _, fun x => ?_⟩
  simp only [bytes, update_self, store_slice_apply, sum, mul_sectsize, place, Nat.add_assoc]
  split
  · congr 1
    omega
  · rfl

end Whole

/-- What a transfer is made of: `R lo hi` says that the bytes `[lo, hi)` of the buffer have been
moved. -/
structure Moved (dev : SpecDevice) (drive first origin : Nat) (R : Nat → Nat → Ata → Ata → Prop)
    (whole : (drive nsects lba pos : Nat) → Cmd Ata Stop Unit)
    (through : (drive lba skip pos n : Nat) → Cmd Ata Stop Unit) : Prop where
  none : ∀ {lo s}, R lo lo s s
  trans : ∀ {lo hi lo' hi' a b s t u}, R lo hi s t → R lo' hi' t u → Joins lo hi lo' hi' a b →
    R a b s u
  devices : ∀ {lo hi s t}, R lo hi s t → t.devices = s.devices
  len : ∀ {lo hi s t}, R lo hi s t → t.len = s.len
  whole : ∀ {s nsects lba pos}, Serves s dev drive first →
    lba + first + nsects ≤ (s.devices drive).size.toNat → pos + 512 * nsects ≤ s.len →
    512 * (lba + first) = origin + pos →
    Cmd.Ends (whole drive nsects (add32 lba first) pos) s
      (fun _ t => R pos (pos + 512 * nsects) s t) fun _ _ => False
  through : ∀ {s lba skip pos n}, Serves s dev drive first →
    lba + first + 1 ≤ (s.devices drive).size.toNat → skip + n ≤ 512 → pos + n ≤ s.len →
    512 * (lba + first) + skip = origin + pos →
    Cmd.Ends (through drive (add32 lba first) skip pos n) s
      (fun _ t => R pos (pos + n) s t) fun _ _ => False

theorem moved_read : Moved dev drive first origin (Fetched drive origin)
    (fun drive nsects lba pos => ataReadSectors drive nsects lba .buffer pos) readThrough :=
  ⟨Fetched.none, Fetched.trans, Fetched.devices, Fetched.len, Serves.readSectors,
    Serves.readThrough⟩

theorem moved_write : Moved dev drive first origin (Stored drive origin)
    (fun drive nsects lba pos => ataWriteSectors drive nsects lba .buffer pos) writeThrough :=
  ⟨Stored.none, Stored.trans, Stored.devices, Stored.len, Serves.writeSectors,
    Serves.writeThrough⟩

section Transfer

variable {R : Nat → Nat → Ata → Ata → Prop}
  {whole : (drive nsects lba pos : Nat) → Cmd Ata Stop Unit}
  {through : (drive lba skip pos n : Nat) → Cmd Ata Stop Unit}

/-- One more part of a transfer, which is left out where it has no bytes. -/
theorem Moved.next (m : Moved dev drive first origin R whole through) (done : R lo hi s t)
    {p : Prop} [Decidable p] {c : Cmd Ata Stop Unit} (joins : Joins lo hi lo' hi' a b)
    (part : p → Cmd.Ends c t (fun _ u => R lo' hi' t u) fun _ _ => False) (empty : ¬p → lo' = hi') :
    Cmd.Ends (Cmd.when p c) t (fun _ u => R a b s u) fun _ _ => False := by
  apply ends_when
  · intro h
    exact (part h).imp fun _ u moved => m.trans done moved joins
  · intro h
    rw [empty h] at joins
    exact m.trans done m.none joins

/-- A transfer of a range with fewer than 256 whole sectors. -/
theorem Moved.transfer (m : Moved dev drive first (512 * first + offset) R whole through)
    (h : Serves s dev drive first) (low : offset < 2147483648) (room : s.len = len)
    (inside : 512 * first + offset + len ≤ 512 * (s.devices drive).size.toNat)
    (few : (offset + len) / 512 - (offset + 511) / 512 < 256) :
    Cmd.Ends (deviceTransfer whole through dev false len offset) s (fun _ t => R 0 len s t)
      fun _ _ => False := by
  unfold deviceTransfer
  by_cases empty : len = 0
  · subst empty
    exact ends_pure m.none
  rw [if_neg Bool.false_ne_true, if_neg empty, h.target, h.base, sectsize]
  have small : offset + len < 4294967296 := by
    omega
  have ⟨start, mid, stop, sectors, startDiff, endDiff⟩ := span_exact low small
  have single := span_single low len
  generalize span len offset = p at *
  dsimp only
  split
  case isTrue one =>
    rw [single] at one
    have place : 512 * (p.startLba + first) + (512 - p.startDiff) = 512 * first + offset + 0 := by
      omega
    have part := m.through h (by omega) (by omega) (show 0 + len ≤ s.len by omega) place
    simpa using part
  case isFalse more =>
    rw [single] at more
    have none : R p.startDiff p.startDiff s s := m.none
    refine ends_bind ((m.next none ⟨by omega, by omega, .inl ⟨rfl, rfl, rfl⟩⟩
      (fun _ => m.whole h (by omega) (by omega) (by omega)) (by omega)).imp fun _ t done => ?_)
    have room₁ := m.len done
    have inside₁ := m.devices done ▸ inside
    refine ends_bind ((m.next done ⟨by omega, by omega, .inr ⟨by omega, rfl, rfl⟩⟩
      (fun _ => m.through (h.congr (m.devices done)) (by omega) (by omega) (by omega) (by omega))
      (by omega)).imp fun _ u done' => ?_)
    have room₂ := m.len done'
    have inside₂ := m.devices done' ▸ inside
    exact m.next done' ⟨by omega, by omega, .inl ⟨by omega, by omega, by omega⟩⟩
      (fun _ => m.through (h.congr (m.devices done')) (by omega) (by omega) (by omega) (by omega))
      (by omega)

end Transfer

/-! ## Bytes that a write leaves alone -/

/-- The byte `x` of the disk `d` has stayed. -/
structure Leaves (d x : Nat) (s t : Ata) : Prop where
  devices : t.devices = s.devices
  byte : t.disk d x = s.disk d x

variable {d x : Nat} {α β : Type}

/-- Among drives `devices`, the command leaves the byte alone, whether it succeeds or not. -/
def Spares (devices : Nat → IDEDevice) (d x : Nat) (c : Cmd Ata Stop α) : Prop :=
  ∀ s : Ata, s.devices = devices → Cmd.Ends c s (fun _ t => Leaves d x s t) fun _ t => Leaves d x s t

variable {devices : Nat → IDEDevice}

theorem Leaves.refl : Leaves d x s s := ⟨rfl, rfl⟩

theorem Leaves.trans (h : Leaves d x s t) (h' : Leaves d x t u) : Leaves d x s u :=
  ⟨h'.devices.trans h.devices, h'.byte.trans h.byte⟩

theorem spares_pure {a : α} : Spares devices d x (pure a) := fun _ _ => ends_pure .refl

theorem spares_bind {c : Cmd Ata Stop α} {f : α → Cmd Ata Stop β} (h : Spares devices d x c)
    (next : ∀ a, Spares devices d x (f a)) : Spares devices d x (c >>= f) := by
  intro s same
  apply ends_bind
  refine (h s same).imp fun a t leaves => ?_
  exact (next a t (leaves.devices.trans same)).mono (fun _ _ => leaves.trans) fun _ _ => leaves.trans

theorem spares_when {p : Prop} [Decidable p] {c : Cmd Ata Stop Unit}
    (h : p → Spares devices d x c) : Spares devices d x (Cmd.when p c) :=
  fun s same => ends_when (fun yes => h yes s same) fun _ => .refl

theorem spares_load : Spares devices d x (load area pos n) := by
  intro s _
  apply ends_bind
  apply ends_get
  split
  · exact ends_pure .refl
  · exact ends_fail .refl

theorem spares_save {data : List UInt8} : Spares devices d x (save area pos data) := by
  intro s _
  apply ends_bind
  apply ends_get
  split
  · exact ends_modify ⟨put_devices .., by rw [put_disk]⟩
  · exact ends_fail .refl

theorem spares_readSectors : Spares devices d x (ataReadSectors drive nsects lba area pos) := by
  intro s same
  apply ends_bind
  apply ends_get
  split
  · split
    · exact spares_save s same
    · refine ends_forM (I := fun t => Leaves d x s t) (fun i _ t leaves => ?_) .refl
      exact (spares_save t (leaves.devices.trans same)).mono (fun _ _ => leaves.trans)
        fun _ _ => leaves.trans
  · exact ends_fail .refl

/-- The byte is not in sectors that a write to the drive changes. -/
def Apart (devices : Nat → IDEDevice) (d x drive lba nsects : Nat) : Prop :=
  d ≠ drive ∨ (devices d).type = .atapi ∨
    x < lba * ATA_SECTSIZE ∨ (lba + nsects) * ATA_SECTSIZE ≤ x

theorem spares_writeSectors (apart : Apart devices d x drive lba nsects) :
    Spares devices d x (ataWriteSectors drive nsects lba area pos) := by
  intro s same
  apply ends_bind
  apply ends_get
  split
  · split
    case h_1 ata =>
      apply ends_bind
      apply ends_bind
      apply ends_get
      split
      · apply ends_pure
        refine ends_modify ⟨rfl, ?_⟩
        by_cases here : d = drive
        · subst here
          rw [Apart, ← same, ata, mul_sectsize, mul_sectsize] at apart
          simp only [ne_eq, not_true_eq_false, reduceCtorEq, false_or] at apart
          simp only [update_self, store_slice_apply, mul_sectsize]
          rw [if_neg (by omega)]
        · simp only [update_of_ne here]
      · exact ends_fail .refl
    case h_2 => exact ends_fail .refl
  · exact ends_fail .refl

theorem spares_writeThrough (apart : Apart devices d x drive lba 1) :
    Spares devices d x (writeThrough drive lba skip pos n) :=
  spares_bind spares_readSectors fun _ => spares_bind spares_load fun _ =>
    spares_bind spares_save fun _ => spares_writeSectors apart

/-- The bytes that a write changes lie in the sectors it passes to the controller. -/
theorem spares_deviceWrite
    (single : (span len offset).single = true →
      Apart devices d x (driveOf dev) (add32 (span len offset).startLba (partOffset dev)) 1)
    (several : (span len offset).single = false →
      Apart devices d x (driveOf dev) (add32 (span len offset).midLba (partOffset dev))
        ((span len offset).sectors % 256) ∧
      ((span len offset).startDiff ≠ 0 →
        Apart devices d x (driveOf dev) (add32 (span len offset).startLba (partOffset dev)) 1) ∧
      ((span len offset).endDiff ≠ 0 →
        Apart devices d x (driveOf dev) (add32 (span len offset).endLba (partOffset dev)) 1)) :
    Spares devices d x (ataDeviceWrite dev false len offset) := by
  unfold ataDeviceWrite deviceTransfer
  rw [if_neg Bool.false_ne_true]
  split
  · exact spares_pure
  dsimp only
  split
  case isTrue one => exact spares_writeThrough (single one)
  case isFalse more =>
    obtain ⟨middle, head, tail⟩ := several (Bool.eq_false_iff.2 more)
    exact spares_bind (spares_when fun _ => spares_writeSectors middle) fun _ =>
      spares_bind (spares_when fun some => spares_writeThrough (head some)) fun _ =>
        spares_when fun some => spares_writeThrough (tail some)

end Parts

/-! ## Devices -/

theorem registered {d : BlockDevice} (mem : d ∈ s.devicesInit) :
    d.drive < 4 ∧ (s.devices d.drive).reserved = true ∧
      (d.dev.minor = 0 ∧ d.dev.major = d.drive + 2 ∧ d.first = 0 ∨
        d.dev.minor ≠ 0 ∧ d.dev.major = d.drive + 1 ∧ d.dev.data = d.first) := by
  obtain ⟨i, low, mem⟩ := mem_flatMap.1 mem
  have low := mem_range.1 low
  split at mem
  case isFalse => cases mem
  case isTrue reserved =>
    rcases mem_cons.1 mem with rfl | mem
    · exact ⟨low, reserved, .inl ⟨rfl, rfl, rfl⟩⟩
    · unfold deviceDiskInit at mem
      split at mem
      case isTrue => cases mem
      case isFalse =>
        obtain ⟨j, -, entry⟩ := mem_filterMap.1 mem
        dsimp only at entry
        split at entry
        case isTrue => cases entry
        case isFalse =>
          cases entry
          exact ⟨low, reserved, .inr ⟨Nat.succ_ne_zero j, rfl, rfl⟩⟩

section Devices

variable {d : BlockDevice}

theorem serves (mem : d ∈ s.devicesInit) (part : d.dev.minor ≠ 0)
    (ata : (s.devices d.drive).type = .ata) : Serves s d.dev d.drive d.first := by
  obtain ⟨low, reserved, ⟨whole, -⟩ | ⟨-, major, first⟩⟩ := registered mem
  · exact absurd whole part
  constructor
  case target =>
    rw [driveOf, major]
    omega
  case base => rw [partOffset, if_pos part, first]
  case low => omega
  case reserved => exact reserved
  case ata => exact ata

/-- No byte of a range that a command writes is one that it leaves alone. -/
theorem WritesBy.not_spares {c : Cmd Ata Stop Unit} (writes : s.WritesBy d offset len c) {i : Nat}
    (lt : i < len) : ¬Spares s.devices d.drive (d.origin offset + i) c := by
  intro spares
  obtain ⟨t, run, disk⟩ := writes fun i => s.disk d.drive (d.origin offset + i) + 1
  have ends := spares
    { s with buffer := fun i => s.disk d.drive (d.origin offset + i) + 1, len } rfl
  have byte := (ends.of_run run).byte
  rw [disk] at byte
  simp [store_slice_apply, lt] at byte

/-- A write to a device that reaches its drive is to a partition of an ATA drive. -/
theorem partition_of_not_spares (mem : d ∈ s.devicesInit) {x : Nat}
    (reached : ¬Spares s.devices d.drive x (ataDeviceWrite d.dev false len offset)) :
    d.dev.minor ≠ 0 ∧ (s.devices d.drive).type = .ata := by
  constructor
  · intro whole
    obtain ⟨-, -, ⟨-, major, -⟩ | ⟨part, -⟩⟩ := registered mem
    · have other : d.drive ≠ driveOf d.dev := by
        rw [driveOf, major]
        omega
      exact reached (spares_deviceWrite (fun _ => .inl other)
        fun _ => ⟨.inl other, fun _ => .inl other, fun _ => .inl other⟩)
    · exact part whole
  · cases type : (s.devices d.drive).type with
    | ata => rfl
    | atapi =>
      exact absurd (spares_deviceWrite (fun _ => .inr (.inl type))
        fun _ => ⟨.inr (.inl type), fun _ => .inr (.inl type), fun _ => .inr (.inl type)⟩) reached

/-- Past 256 whole sectors there is a byte of the range that a write does not reach. -/
theorem not_writes_many (mem : d ∈ s.devicesInit) (part : d.dev.minor ≠ 0)
    (ata : (s.devices d.drive).type = .ata) (low : offset < 2147483648) (small : len < 4294967296)
    (within : d.Within s offset len) (many : 256 ≤ (offset + len) / 512 - (offset + 511) / 512) :
    ¬s.Writes d offset len := by
  intro writes
  obtain ⟨target, base, -⟩ := serves mem part ata
  obtain ⟨-, inside⟩ := within
  have size := (s.devices d.drive).size.toNat_lt
  rw [BlockDevice.origin, mul_sectsize, mul_sectsize] at inside
  have start : (span len offset).startLba = offset / 512 := sectorOf_low low
  have mid := span_midLba low len
  have one := span_single low len
  by_cases wraps : offset + len < 4294967296
  · obtain ⟨-, -, stop, _, _, _⟩ := span_exact low wraps
    refine WritesBy.not_spares writes (i := (span len offset).startDiff + 512 * ((span len offset).sectors % 256))
      (by omega) (spares_deviceWrite (fun single => absurd (one.1 single) (by omega)) fun _ => ?_)
    rw [target, base, add32_eq (by omega), add32_eq (by omega), add32_eq (by omega)]
    simp only [Apart, BlockDevice.origin, mul_sectsize]
    exact ⟨.inr (.inr (.inr (by omega))), fun _ => .inr (.inr (.inr (by omega))),
      fun _ => .inr (.inr (.inl (by omega)))⟩
  · -- The end of the range wraps around and lies in front of its start.
    have stop : (span len offset).endLba = (offset + len - 4294967296) / 512 := by
      have wrapped : add32 offset len = offset + len - 4294967296 := by
        unfold add32
        omega
      simp only [span, sectsize, wrapped]
    refine WritesBy.not_spares writes (i := 512) (by omega) (spares_deviceWrite (fun _ => ?_)
      fun several => absurd (one.2 (by omega)) (Bool.eq_false_iff.1 several))
    rw [target, base, add32_eq (by omega)]
    simp only [Apart, BlockDevice.origin, mul_sectsize]
    exact .inr (.inr (.inr (by omega)))

/-- What a device that writes reach must be. -/
theorem Writes.condition (writes : s.Writes d offset len) (mem : d ∈ s.devicesInit)
    (low : offset < 2147483648) (small : len < 4294967296) (within : d.Within s offset len)
    (some : len ≠ 0) :
    d.dev.minor ≠ 0 ∧ (s.devices d.drive).type = .ata ∧
      (offset + len) / 512 - (offset + 511) / 512 < 256 := by
  obtain ⟨part, ata⟩ := partition_of_not_spares mem
    (WritesBy.not_spares writes (i := 0) (by omega))
  refine ⟨part, ata, ?_⟩
  by_contra many
  exact not_writes_many mem part ata low small within (by omega) writes

/-- A command that fetches the bytes of a range reads it. -/
theorem readsBy {c : Cmd Ata Stop Unit}
    (ends : ∀ buffer, Cmd.Ends c { s with buffer, len }
      (fun _ t => Fetched d.drive (512 * d.first + offset) 0 len { s with buffer, len } t)
      fun _ _ => False) : s.ReadsBy d offset len c := by
  intro buffer
  obtain ⟨⟨⟩, t, run, fetched⟩ := (ends buffer).succeeds
  refine ⟨t, run, ?_, fetched.disk⟩
  refine map_congr_left fun i mem => ?_
  have := mem_range.1 mem
  rw [fetched.buffer, if_pos (by omega), BlockDevice.origin, mul_sectsize, Nat.zero_add]

theorem writesBy {c : Cmd Ata Stop Unit}
    (ends : ∀ buffer, Cmd.Ends c { s with buffer, len }
      (fun _ t => Stored d.drive (512 * d.first + offset) 0 len { s with buffer, len } t)
      fun _ _ => False) (buffer : Mem) :
    ∃ t, c { s with buffer, len } = (.ok (), t) ∧
      t.disk = update s.disk d.drive
        (store (s.disk d.drive) (d.origin offset) (slice buffer 0 len)) ∧
      t.devices = s.devices ∧ t.len = len := by
  obtain ⟨⟨⟩, t, run, stored⟩ := (ends buffer).succeeds
  refine ⟨t, run, ?_, stored.devices, stored.len⟩
  funext e x
  by_cases here : e = d.drive
  · subst here
    simp only [stored.disk, update_self, store_slice_apply, BlockDevice.origin,
      mul_sectsize, Nat.zero_add, Nat.add_zero]
  · rw [stored.others e here, update_of_ne here]

section Few

variable (h : Serves s d.dev d.drive d.first) (low : offset < 2147483648)
  (within : d.Within s offset len) (few : (offset + len) / 512 - (offset + 511) / 512 < 256)
include h low within few

theorem Serves.reads : s.Reads d offset len := by
  have inside := within.2
  rw [BlockDevice.origin, mul_sectsize, mul_sectsize] at inside
  exact readsBy fun buffer => moved_read.transfer
    (h.congr (t := { s with buffer, len }) rfl) low rfl inside few

theorem Serves.writes (buffer : Mem) :
    ∃ t, ataDeviceWrite d.dev false len offset { s with buffer, len } = (.ok (), t) ∧
      t.disk = update s.disk d.drive
        (store (s.disk d.drive) (d.origin offset) (slice buffer 0 len)) ∧
      t.devices = s.devices ∧ t.len = len := by
  have inside := within.2
  rw [BlockDevice.origin, mul_sectsize, mul_sectsize] at inside
  exact writesBy (fun buffer => moved_write.transfer
    (h.congr (t := { s with buffer, len }) rfl) low rfl inside few) buffer

theorem Serves.readsBack : s.ReadsBack d offset len := by
  intro buffer buffer'
  obtain ⟨t, run, disk, devices, length⟩ := h.writes low within few buffer
  have within' : d.Within t offset len := by
    rw [BlockDevice.Within, devices]
    exact within
  obtain ⟨u, run', got, -⟩ := (h.congr devices).reads low within' few buffer'
  refine ⟨t, u, run, ?_, ?_⟩
  · rw [← run', ← length]
  · have written := @slice_store_self _ (s.disk d.drive) (d.origin offset) (slice buffer 0 len)
    rw [got, disk, update_self]
    simpa using written

end Few

theorem transfer_empty {whole : (drive nsects lba pos : Nat) → Cmd Ata Stop Unit}
    {through : (drive lba skip pos n : Nat) → Cmd Ata Stop Unit} :
    deviceTransfer whole through dev false 0 offset s = (.ok (), s) := by
  unfold deviceTransfer
  rfl

theorem readsBy_empty {at_ : Nat} : s.ReadsBy d offset 0 (ataDeviceRead dev false 0 at_) :=
  fun _ => ⟨_, transfer_empty, rfl, rfl⟩

theorem writesBy_empty {at_ : Nat} : s.WritesBy d offset 0 (ataDeviceWrite dev false 0 at_) := by
  refine fun _ => ⟨_, transfer_empty, ?_⟩
  rw [store_empty, Function.update_eq_self]

/-- A device is the array of bytes of its partition, for reads and for writes, if and only if
the range is empty, or the device is a partition of an ATA drive and fewer than 256 whole sectors
lie in the range. -/
theorem block_device_bytes (mem : d ∈ s.devicesInit) (low : offset < 2147483648)
    (small : len < 4294967296) (within : d.Within s offset len) :
    s.Reads d offset len ∧ s.Writes d offset len ∧ s.ReadsBack d offset len ↔
      len = 0 ∨ d.dev.minor ≠ 0 ∧ (s.devices d.drive).type = .ata ∧
        (offset + len) / 512 - (offset + 511) / 512 < 256 := by
  constructor
  · rintro ⟨-, writes, -⟩
    by_cases empty : len = 0
    · exact .inl empty
    · exact .inr (writes.condition mem low small within empty)
  · rintro (rfl | ⟨part, ata, few⟩)
    · exact ⟨readsBy_empty, writesBy_empty, fun _ _ => ⟨_, _, transfer_empty, transfer_empty, rfl⟩⟩
    · have h := serves mem part ata
      refine ⟨h.reads low within few, fun buffer => ?_, h.readsBack low within few⟩
      obtain ⟨t, run, disk, -⟩ := h.writes low within few buffer
      exact ⟨t, run, disk⟩

end Devices

/-- Two ATA drives of 100 sectors. The first has a partition of 10 sectors from sector 1 on. -/
def twoDrives : Ata where
  devices i := ⟨i < 2, .ata, 100⟩
  disk d x := if d ≠ 0 then 0 else if x = 0x1c2 then 0x83 else if x = 0x1c6 then 1
    else if x = 0x1ca then 10 else 0
  temp _ := 0
  buffer _ := 0
  len := 0

/-- The 1000 bytes of the partition `sda1` from byte 100 on. -/
theorem block_device_bytes_sda1 :
    twoDrives.Reads ⟨⟨1, 1, 1⟩, 0, 1, 10⟩ 100 1000 ∧
      twoDrives.Writes ⟨⟨1, 1, 1⟩, 0, 1, 10⟩ 100 1000 ∧
      twoDrives.ReadsBack ⟨⟨1, 1, 1⟩, 0, 1, 10⟩ 100 1000 := by
  refine (block_device_bytes ?_ ?_ ?_ ?_).2 (.inr ⟨?_, ?_, ?_⟩)
  · decide +kernel
  · decide
  · decide
  · rw [BlockDevice.Within, BlockDevice.origin, sectsize]
    decide
  · decide
  · rfl
  · decide

/-- A byte written to the first disk, `sda`, goes to the second drive. -/
theorem whole_disk_next_drive :
    ⟨⟨2, 0, 0⟩, 0, 0, 100⟩ ∈ twoDrives.devicesInit ∧
      BlockDevice.Within ⟨⟨2, 0, 0⟩, 0, 0, 100⟩ twoDrives 0 1 ∧
      ¬(twoDrives.Reads ⟨⟨2, 0, 0⟩, 0, 0, 100⟩ 0 1 ∧ twoDrives.Writes ⟨⟨2, 0, 0⟩, 0, 0, 100⟩ 0 1 ∧
        twoDrives.ReadsBack ⟨⟨2, 0, 0⟩, 0, 0, 100⟩ 0 1) := by
  refine ⟨by decide +kernel, ?_, ?_⟩
  · rw [BlockDevice.Within, BlockDevice.origin, sectsize]
    decide
  · rintro ⟨-, writes, -⟩
    obtain ⟨t, run, disk⟩ := writes fun _ => 7
    have eq := congrArg (fun r => r.2.disk 0 0) run
    have old : (ataDeviceWrite ⟨2, 0, 0⟩ false 1 0 { twoDrives with buffer := fun _ => 7, len := 1 }).2.disk 0 0 = 0 := by
      decide +kernel
    simp only [old, disk] at eq
    revert eq
    decide +kernel

end Ata

end Os0

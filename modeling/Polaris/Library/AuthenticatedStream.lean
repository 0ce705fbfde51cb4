import Mathlib.Data.List.Basic
import Mathlib.Tactic.Common

/-! Ciphers that take a text piece by piece and end with a tag. -/

structure AuthenticatedCipher (Key Nonce Byte : Type) where
  State : Type
  start : Key → Nonce → List Byte → State
  encrypt : State → List Byte → State × List Byte
  decrypt : State → List Byte → State × List Byte
  tag : State → List Byte
  tagSize : ℕ
  encrypt_nil : ∀ s, encrypt s [] = (s, [])
  encrypt_append : ∀ s x y, encrypt s (x ++ y) =
    ((encrypt (encrypt s x).1 y).1, (encrypt s x).2 ++ (encrypt (encrypt s x).1 y).2)
  decrypt_nil : ∀ s, decrypt s [] = (s, [])
  decrypt_append : ∀ s x y, decrypt s (x ++ y) =
    ((decrypt (decrypt s x).1 y).1, (decrypt s x).2 ++ (decrypt (decrypt s x).1 y).2)
  decrypt_encrypt : ∀ s x, decrypt s (encrypt s x).2 = ((encrypt s x).1, x)
  encrypt_decrypt : ∀ s c, encrypt s (decrypt s c).2 = ((decrypt s c).1, c)
  length_tag : ∀ s, (tag s).length = tagSize

/-- What a transformation makes of the pieces of a text, one after the other. -/
def feed {State Byte : Type} (update : State → List Byte → State × List Byte) :
    State → List (List Byte) → State × List Byte
  | s, [] => (s, [])
  | s, x :: xs =>
      let done := update s x
      let rest := feed update done.1 xs
      (rest.1, done.2 ++ rest.2)

namespace AuthenticatedCipher
variable {Key Nonce Byte : Type} (cipher : AuthenticatedCipher Key Nonce Byte)

theorem feed_encrypt (s : cipher.State) (xs : List (List Byte)) :
    feed cipher.encrypt s xs = cipher.encrypt s xs.flatten := by
  induction xs generalizing s with
  | nil => exact (cipher.encrypt_nil s).symm
  | cons x xs ih => rw [feed, List.flatten_cons, cipher.encrypt_append, ih]

theorem feed_decrypt (s : cipher.State) (xs : List (List Byte)) :
    feed cipher.decrypt s xs = cipher.decrypt s xs.flatten := by
  induction xs generalizing s with
  | nil => exact (cipher.decrypt_nil s).symm
  | cons x xs ih => rw [feed, List.flatten_cons, cipher.decrypt_append, ih]

/-- The text under its tag. -/
def sealed (key : Key) (nonce : Nonce) (header x : List Byte) : List Byte :=
  (cipher.encrypt (cipher.start key nonce header) x).2 ++
    cipher.tag (cipher.encrypt (cipher.start key nonce header) x).1

/-- A tagged text opens to what it was sealed from, and only what was sealed has its tag. -/
theorem opens_iff {key : Key} {nonce : Nonce} {header c t x : List Byte} :
    (cipher.decrypt (cipher.start key nonce header) c).2 = x ∧
      cipher.tag (cipher.decrypt (cipher.start key nonce header) c).1 = t ↔
    (cipher.encrypt (cipher.start key nonce header) x).2 = c ∧
      cipher.tag (cipher.encrypt (cipher.start key nonce header) x).1 = t := by
  constructor
  · rintro ⟨rfl, rfl⟩
    rw [cipher.encrypt_decrypt]
    exact ⟨rfl, rfl⟩
  · rintro ⟨rfl, rfl⟩
    rw [cipher.decrypt_encrypt]
    exact ⟨rfl, rfl⟩

end AuthenticatedCipher

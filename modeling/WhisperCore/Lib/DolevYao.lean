import Mathlib.Data.Set.Basic

/-!
# Terms and an observer

Perfect cryptography. A message is a term, and an observer takes terms apart and puts them together
by the rules of `Derives` and in no other way: what is encrypted opens only with its key. Secrecy is
proved by the closed-set method: a set that holds all the observer sees and that no rule leads out
of holds all the observer can derive. `Harmless` is such a set.
-/

namespace DolevYao

inductive Term (Key Atom Data : Type*) where
  | data (d : Data)
  | atom (a : Atom)
  | publicKey (k : Key)
  | privateKey (k : Key)
  /-- An encoding everybody can undo. -/
  | encode (t : Term Key Atom Data)
  /-- Encryption with a public key. -/
  | aenc (k : Key) (t : Term Key Atom Data)
  /-- Encryption with a shared key. -/
  | senc (key t : Term Key Atom Data)
deriving DecidableEq

/-- The keys and atoms of an observer's own. -/
structure Observer (Key Atom : Type*) where
  keys : Set Key
  atoms : Set Atom

variable {Key Atom Data : Type*}

namespace Term

@[simp]
def decode : Term Key Atom Data → Option (Term Key Atom Data)
  | encode t => some t
  | _ => none

@[simp]
def toPublicKey : Term Key Atom Data → Option Key
  | publicKey k => some k
  | _ => none

theorem decode_eq_some_iff {t opened : Term Key Atom Data} :
    t.decode = some opened ↔ t = encode opened := by
  cases t <;> simp

theorem toPublicKey_eq_some_iff {t : Term Key Atom Data} {k : Key} :
    t.toPublicKey = some k ↔ t = publicKey k := by
  cases t <;> simp

/-- Decryption with a private key. -/
def adec [DecidableEq Key] (k : Key) : Term Key Atom Data → Option (Term Key Atom Data)
  | aenc other t => if k = other then some t else none
  | _ => none

theorem adec_eq_some_iff [DecidableEq Key] {k : Key} {t opened : Term Key Atom Data} :
    t.adec k = some opened ↔ t = aenc k opened := by
  cases t with
  | aenc other t =>
      by_cases hsame : k = other
      · subst hsame
        simp [adec]
      · simp [adec, hsame, Ne.symm hsame]
  | _ => simp [adec]

end Term

open Term

inductive Derives (own : Observer Key Atom) (seen : Set (Term Key Atom Data)) :
    Term Key Atom Data → Prop where
  | seen {t} (h : t ∈ seen) : Derives own seen t
  | data (d) : Derives own seen (data d)
  | publicKey (k) : Derives own seen (publicKey k)
  | ownKey {k} (h : k ∈ own.keys) : Derives own seen (privateKey k)
  | ownAtom {a} (h : a ∈ own.atoms) : Derives own seen (atom a)
  | encode {t} (h : Derives own seen t) : Derives own seen (encode t)
  | decode {t} (h : Derives own seen (encode t)) : Derives own seen t
  | aenc {k t} (hkey : Derives own seen (publicKey k)) (h : Derives own seen t) :
      Derives own seen (aenc k t)
  | adec {k t} (h : Derives own seen (aenc k t)) (hkey : Derives own seen (privateKey k)) :
      Derives own seen t
  | senc {key t} (hkey : Derives own seen key) (h : Derives own seen t) :
      Derives own seen (senc key t)
  | sdec {key t} (h : Derives own seen (senc key t)) (hkey : Derives own seen key) :
      Derives own seen t

variable {own : Observer Key Atom} {seen : Set (Term Key Atom Data)} {t : Term Key Atom Data}

/-- What may be seen by an observer: nothing of somebody else's stands in it but under a key the
observer does not have. -/
def Harmless (own : Observer Key Atom) : Term Key Atom Data → Prop
  | data _ => True
  | atom a => a ∈ own.atoms
  | publicKey _ => True
  | privateKey k => k ∈ own.keys
  | encode t => Harmless own t
  | aenc k t => k ∈ own.keys → Harmless own t
  | senc key t => Harmless own key → Harmless own t

/-- **Secrecy.** An observer who sees harmless terms derives harmless terms. -/
theorem Derives.harmless (hseen : ∀ s ∈ seen, Harmless own s) (h : Derives own seen t) :
    Harmless own t := by
  induction h with
  | seen h => exact hseen _ h
  | data d => trivial
  | publicKey k => trivial
  | ownKey h => exact h
  | ownAtom h => exact h
  | encode _ ih => exact ih
  | decode _ ih => exact ih
  | aenc _ _ _ ih => exact fun _ => ih
  | adec _ _ ih ihkey => exact ih ihkey
  | senc _ _ _ ih => exact fun _ => ih
  | sdec _ _ ih ihkey => exact ih ihkey

theorem not_derives_atom (hseen : ∀ s ∈ seen, Harmless own s) {a : Atom} (ha : a ∉ own.atoms) :
    ¬ Derives own seen (atom a) := fun h => ha (h.harmless hseen)

end DolevYao

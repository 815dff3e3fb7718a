import WhisperCore.Concrete

/-!
# Comparing two peers

The three answers are joined bit by bit and the lowest bit alone is kept. The answer about the guids
is a state, zero or one. `strcmp` promises no more than a sign, so two different strings pass for
equal wherever its answer about them is even.
-/

namespace WhisperCore

variable {strcmp : Strcmp} {p q : Peer}

/-! ### One bit of the answers -/

theorem or_and_one_eq_zero_iff (first second : UInt32) :
    (first ||| second) &&& 1 = 0 ↔ first &&& 1 = 0 ∧ second &&& 1 = 0 := by
  simp only [← UInt32.toBitVec_inj, UInt32.toBitVec_and, UInt32.toBitVec_or]
  rw [BitVec.and_or_distrib_right]
  exact BitVec.or_eq_zero_iff

theorem and_one_eq_zero_iff (answer : Int32) :
    answer.toUInt32 &&& 1 = 0 ↔ Even answer.toInt := by
  have hunsigned : answer.toUInt32.toNat = answer.toBitVec.toNat := rfl
  have hone : (1 : UInt32).toNat = 1 := rfl
  have hzero : (0 : UInt32).toNat = 0 := rfl
  rw [← UInt32.toNat_inj, UInt32.toNat_and, hone, hzero, Nat.and_one_is_mod, hunsigned,
    Int.even_iff, ← Int32.toInt_toBitVec, BitVec.toInt_eq_toNat_cond]
  split <;> omega

theorem jnxGuidCompare_and_one_eq_zero_iff (first second : Guid) :
    jnxGuidCompare first second &&& 1 = 0 ↔ first = second := by
  by_cases hsame : first = second <;> simp [jnxGuidCompare, hsame]

/-- The answer about two strings is even; so it is about equal ones. -/
def Strcmp.EvenAnswer (strcmp : Strcmp) (first second : CString) : Prop :=
  Even (strcmp.compare first second).toInt

theorem Strcmp.evenAnswer_refl (strcmp : Strcmp) (string : CString) :
    strcmp.EvenAnswer string string := by
  rw [EvenAnswer, (strcmp.compare_eq_zero_iff string string).mpr rfl]
  exact Even.zero

theorem peersCompare_eq_peersEquivalent_iff :
    peersCompare strcmp p q = .peersEquivalent
      ↔ p.guid = q.guid ∧ strcmp.EvenAnswer p.hostAddress q.hostAddress
        ∧ strcmp.EvenAnswer p.userName q.userName := by
  have hbit : peersCompare strcmp p q = .peersEquivalent
      ↔ (jnxGuidCompare p.guid q.guid
        ||| (strcmp.compare p.hostAddress q.hostAddress).toUInt32
        ||| (strcmp.compare p.userName q.userName).toUInt32) &&& 1 = 0 := by
    simp only [peersCompare, UInt32.zero_or]
    split <;> simp [*]
  rw [hbit, or_and_one_eq_zero_iff, or_and_one_eq_zero_iff, jnxGuidCompare_and_one_eq_zero_iff,
    and_one_eq_zero_iff, and_one_eq_zero_iff, and_assoc]
  rfl

/-! ### Exactness -/

def SamePeer (p q : Peer) : Prop :=
  p.guid = q.guid ∧ p.hostAddress = q.hostAddress ∧ p.userName = q.userName

/-- On these two peers the comparison answers as it should. -/
def ComparesExactly (strcmp : Strcmp) (p q : Peer) : Prop :=
  peersCompare strcmp p q = .peersEquivalent ↔ SamePeer p q

/-- The comparison is exact on all peers, and with it an equivalence relation. -/
def PeersCompareExact (strcmp : Strcmp) : Prop :=
  (∀ p q, ComparesExactly strcmp p q)
    ∧ Equivalence fun p q => peersCompare strcmp p q = .peersEquivalent

def Strcmp.OddOnDifferent (strcmp : Strcmp) : Prop :=
  ∀ first second, first ≠ second → ¬ strcmp.EvenAnswer first second

theorem samePeer_equivalence : Equivalence SamePeer where
  refl _ := ⟨rfl, rfl, rfl⟩
  symm := by
    rintro p q ⟨hguid, hhost, hname⟩
    exact ⟨hguid.symm, hhost.symm, hname.symm⟩
  trans := by
    rintro p q r ⟨hguid, hhost, hname⟩ ⟨hguid', hhost', hname'⟩
    exact ⟨hguid.trans hguid', hhost.trans hhost', hname.trans hname'⟩

theorem SamePeer.peersCompare (h : SamePeer p q) :
    peersCompare strcmp p q = .peersEquivalent := by
  obtain ⟨hguid, hhost, hname⟩ := h
  rw [peersCompare_eq_peersEquivalent_iff, hguid, hhost, hname]
  exact ⟨rfl, strcmp.evenAnswer_refl _, strcmp.evenAnswer_refl _⟩

theorem comparesExactly_iff :
    ComparesExactly strcmp p q
      ↔ SamePeer p q ∨ p.guid ≠ q.guid ∨ ¬ strcmp.EvenAnswer p.hostAddress q.hostAddress
        ∨ ¬ strcmp.EvenAnswer p.userName q.userName := by
  by_cases hsame : SamePeer p q
  · simp [ComparesExactly, hsame, hsame.peersCompare]
  · rw [ComparesExactly, peersCompare_eq_peersEquivalent_iff]
    tauto

/-- Some peer with this address, and with that for a name. -/
def peerAt (hostAddress : CString) : Peer := { Concrete.peer 0 hostAddress with hostAddress }

@[simp]
theorem peersCompare_peerAt_iff {first second : CString} :
    peersCompare strcmp (peerAt first) (peerAt second) = .peersEquivalent
      ↔ strcmp.EvenAnswer first second := by
  simp [peersCompare_eq_peersEquivalent_iff, peerAt, Concrete.peer]

/-- The comparison is an equivalence relation exactly when even answers are one on strings. -/
theorem peersCompare_equivalence_iff :
    (Equivalence fun p q => peersCompare strcmp p q = .peersEquivalent)
      ↔ Equivalence strcmp.EvenAnswer := by
  constructor
  · intro h
    have hstrings : Function.onFun
        (fun p q => peersCompare strcmp p q = .peersEquivalent) peerAt = strcmp.EvenAnswer := by
      funext first second
      exact propext peersCompare_peerAt_iff
    exact hstrings ▸ h.comap peerAt
  · intro h
    simp only [peersCompare_eq_peersEquivalent_iff]
    exact ⟨fun p => ⟨rfl, h.refl _, h.refl _⟩,
      fun ⟨hguid, hhost, hname⟩ => ⟨hguid.symm, h.symm hhost, h.symm hname⟩,
      fun ⟨hguid, hhost, hname⟩ ⟨hguid', hhost', hname'⟩ =>
        ⟨hguid.trans hguid', h.trans hhost hhost', h.trans hname hname'⟩⟩

theorem Strcmp.OddOnDifferent.comparesExactly (h : strcmp.OddOnDifferent) (p q : Peer) :
    ComparesExactly strcmp p q := by
  have heven : ∀ first second, strcmp.EvenAnswer first second ↔ first = second := by
    intro first second
    refine ⟨fun hanswer => ?_, ?_⟩
    · by_contra hne
      exact h first second hne hanswer
    · rintro rfl
      exact strcmp.evenAnswer_refl first
  rw [ComparesExactly, peersCompare_eq_peersEquivalent_iff, heven, heven, SamePeer]

theorem peersCompareExact_iff : PeersCompareExact strcmp ↔ strcmp.OddOnDifferent := by
  constructor
  · rintro ⟨hexact, _⟩ first second hne heven
    have hsame := (hexact (peerAt first) (peerAt second)).mp (peersCompare_peerAt_iff.mpr heven)
    exact hne hsame.2.1
  · intro h
    have hrelation : (fun p q => peersCompare strcmp p q = .peersEquivalent) = SamePeer := by
      funext p q
      exact propext (h.comparesExactly p q)
    exact ⟨h.comparesExactly, hrelation ▸ samePeer_equivalence⟩

/-- **Comparison, exactly.** Two peers are compared as they should if and only if they are the same,
their guids differ, or an answer of `strcmp` about them is odd; all peers are, if and only if the
answer about any two different strings is odd. -/
theorem peersCompare_exact_iff (strcmp : Strcmp) :
    (∀ p q, ComparesExactly strcmp p q
        ↔ SamePeer p q ∨ p.guid ≠ q.guid ∨ ¬ strcmp.EvenAnswer p.hostAddress q.hostAddress
          ∨ ¬ strcmp.EvenAnswer p.userName q.userName)
      ∧ (PeersCompareExact strcmp ↔ strcmp.OddOnDifferent)
      ∧ ((Equivalence fun p q => peersCompare strcmp p q = .peersEquivalent)
        ↔ Equivalence strcmp.EvenAnswer) :=
  ⟨fun _ _ => comparesExactly_iff, peersCompareExact_iff, peersCompare_equivalence_iff⟩

section Run

open Concrete

/-- `"Aa"` -/
def nameAa : CString := ⟨[0x41, 0x61], by decide⟩

/-- `"Ab"` -/
def nameAb : CString := ⟨[0x41, 0x62], by decide⟩

/-- `"C"` -/
def nameC : CString := ⟨[0x43], by decide⟩

/-- Where `strcmp` answers with a difference of bytes, its answer is even if the characters at the
first difference are both odd or both even, where a terminator is even. -/
theorem evenAnswer_byteStrcmp_iff {first second : CString} {common restFirst restSecond : Bytes}
    (hfirst : first.bytes = common ++ restFirst) (hsecond : second.bytes = common ++ restSecond)
    (hne : restFirst.head? ≠ restSecond.head?) :
    byteStrcmp.EvenAnswer first second
      ↔ (restFirst.headD 0).toNat % 2 = (restSecond.headD 0).toNat % 2 := by
  have hanswer : (byteStrcmp.compare first second).toInt
      = (restFirst.headD 0).toNat - (restSecond.headD 0).toNat := by
    rw [byteStrcmp, toInt_byteDifference, hfirst, hsecond, byteDifference_append hne]
  rw [Strcmp.EvenAnswer, hanswer, Int.even_iff]
  omega

/-- With such a `strcmp`, a peer whose address went from `10.0.0.1` to
`10.0.0.3` passes for the same; and `"C"` passes for two names that do not pass for each other. -/
theorem not_peersCompareExact_byteDifference :
    (peersCompare byteStrcmp (peer 0 al) { peer 0 al with hostAddress := host 2 }
        = .peersEquivalent
      ∧ ¬ ComparesExactly byteStrcmp (peer 0 al) { peer 0 al with hostAddress := host 2 })
      ∧ (peersCompare byteStrcmp (peer 0 nameAa) (peer 0 nameC) = .peersEquivalent
        ∧ peersCompare byteStrcmp (peer 0 nameC) (peer 0 nameAb) = .peersEquivalent
        ∧ peersCompare byteStrcmp (peer 0 nameAa) (peer 0 nameAb) = .peersDifferent)
      ∧ ¬ Equivalence (fun p q => peersCompare byteStrcmp p q = .peersEquivalent)
      ∧ ¬ PeersCompareExact byteStrcmp := by
  have hhost : peersCompare byteStrcmp (peer 0 al) { peer 0 al with hostAddress := host 2 }
      = .peersEquivalent := by decide
  have hfirst : peersCompare byteStrcmp (peer 0 nameAa) (peer 0 nameC)
      = .peersEquivalent := by decide
  have hsecond : peersCompare byteStrcmp (peer 0 nameC) (peer 0 nameAb)
      = .peersEquivalent := by decide
  have houter : peersCompare byteStrcmp (peer 0 nameAa) (peer 0 nameAb)
      = .peersDifferent := by decide
  have hrelation : ¬ Equivalence fun p q => peersCompare byteStrcmp p q = .peersEquivalent :=
    fun h => absurd (houter.symm.trans (h.trans hfirst hsecond)) (by decide)
  refine ⟨⟨hhost, fun h => ?_⟩, ⟨hfirst, hsecond, houter⟩, hrelation, fun h => hrelation h.2⟩
  obtain ⟨_, hsame, _⟩ := h.mp hhost
  exact absurd hsame (by decide)

/-- A `strcmp` that answers with the sign alone makes the comparison exact. -/
theorem oddOnDifferent_signStrcmp : signStrcmp.OddOnDifferent := by
  intro first second hne
  rw [Strcmp.EvenAnswer]
  by_cases hless : first.bytes < second.bytes <;> simp [signStrcmp, hne, hless]

end Run

end WhisperCore

import PinBridge.Lib.Glob

/-!
# Wildcards of the hook query

The `modules` and `symbols` filters of a hook query hold patterns
(`matches_patterns`).  A pattern and a value are lowered byte by byte and compared
by a loop with two positions (`wildcard_match`): a byte of the pattern that is `?`
or equals the byte of the value is passed with it, a star is remembered with the
place where it was met, and on a mismatch the last star is stretched by one byte.

The test for equality comes before the test for a star, so a star that meets a
star of the value is passed as an ordinary byte and is not remembered.  The loop
decides the eager reading of the pattern (`wildcardMatch_eager`), which is the
glob itself on every value without a star (`wildcardMatch_of_no_star`).
-/

namespace PinBridge.HookQuery

open Glob

/-! ## The matcher -/

/-- `b'*'`. -/
def asterisk : UInt8 := 0x2A

/-- `b'?'`. -/
def questionMark : UInt8 := 0x3F

/-- `u8::to_ascii_lowercase`. -/
def asciiLowercase (b : UInt8) : UInt8 := if 0x41 ≤ b ∧ b ≤ 0x5A then b + 0x20 else b

/-- The locals of the loop: the positions in the pattern and in the value, the last
star and where its piece ends. -/
structure Scan where
  p : Nat
  v : Nat
  star : Option Nat
  retry : Nat
  /-- the last star lies behind -/
  star_lt : ∀ at' ∈ star, at' < p
  /-- and so does its retry point -/
  retry_le : retry ≤ v

/-- The locals before the loop. -/
def Scan.start : Scan := ⟨0, 0, none, 0, nofun, Nat.le_refl 0⟩

/-- One turn of the loop at the byte `b` of the value; `none` is the `return false`. -/
def Scan.step (pattern : List UInt8) (b : UInt8) (s : Scan) : Option Scan :=
  if pattern[s.p]? = some questionMark ∨ pattern[s.p]? = some b then
    some ⟨s.p + 1, s.v + 1, s.star, s.retry,
      fun i hi => Nat.lt_succ_of_lt (s.star_lt i hi), Nat.le_succ_of_le s.retry_le⟩
  else if pattern[s.p]? = some asterisk then
    some ⟨s.p + 1, s.v, some s.p, s.v,
      fun i hi => by cases hi; exact Nat.lt_succ_self _, Nat.le_refl _⟩
  else
    match s.star with
    | some starAt => some ⟨starAt + 1, s.retry + 1, some starAt, s.retry + 1,
        fun i hi => by cases hi; exact Nat.lt_succ_self _, Nat.le_refl _⟩
    | none => none

/-- The second loop: pass the stars that are left. -/
def skipStars (pattern : List UInt8) (p : Nat) : Nat :=
  if p < pattern.length ∧ pattern[p]? = some asterisk then skipStars pattern (p + 1) else p
termination_by pattern.length - p

/-- What a turn does: it passes a byte, remembers a star, or stretches the last one. -/
inductive Scan.Turn (pattern : List UInt8) (b : UInt8) (s s' : Scan) : Prop where
  | pass (c : UInt8) (hc : pattern[s.p]? = some c) (hb : c = questionMark ∨ c = b)
      (hp : s'.p = s.p + 1) (hv : s'.v = s.v + 1) (hstar : s'.star = s.star)
      (hretry : s'.retry = s.retry)
  | remember (hc : pattern[s.p]? = some asterisk) (hb : b ≠ asterisk)
      (hp : s'.p = s.p + 1) (hv : s'.v = s.v) (hstar : s'.star = some s.p)
      (hretry : s'.retry = s.v)
  | stretch (starAt : Nat) (hold : s.star = some starAt)
      (hc : ∀ c ∈ pattern[s.p]?, c ≠ asterisk ∧ c ≠ questionMark ∧ c ≠ b)
      (hp : s'.p = starAt + 1) (hv : s'.v = s.retry + 1) (hstar : s'.star = some starAt)
      (hretry : s'.retry = s.retry + 1)

theorem Scan.step_some {pattern : List UInt8} {b : UInt8} {s s' : Scan}
    (h : s.step pattern b = some s') : Scan.Turn pattern b s s' := by
  unfold Scan.step at h
  split at h
  · next hpass =>
      cases h
      obtain hc | hc := hpass
      · exact .pass questionMark hc (.inl rfl) rfl rfl rfl rfl
      · exact .pass b hc (.inr rfl) rfl rfl rfl rfl
  next hpass =>
  split at h
  · next hc =>
      cases h
      exact .remember hc (fun hb => hpass (.inr (hb ▸ hc))) rfl rfl rfl rfl
  next hno =>
  cases hstar : s.star with
  | none => simp [hstar] at h
  | some starAt =>
      simp only [hstar] at h
      cases h
      refine .stretch starAt hstar (fun c hc => ⟨?_, ?_, ?_⟩) rfl rfl rfl rfl
      · rintro rfl
        exact hno hc
      · rintro rfl
        exact hpass (.inl hc)
      · rintro rfl
        exact hpass (.inr hc)

theorem Scan.step_none {pattern : List UInt8} {b : UInt8} {s : Scan}
    (h : s.step pattern b = none) :
    s.star = none ∧ ∀ c ∈ pattern[s.p]?, c ≠ asterisk ∧ c ≠ questionMark ∧ c ≠ b := by
  unfold Scan.step at h
  split at h
  · cases h
  next hpass =>
  split at h
  · cases h
  next hno =>
  cases hstar : s.star with
  | some starAt => simp [hstar] at h
  | none =>
      refine ⟨rfl, fun c hc => ⟨?_, ?_, ?_⟩⟩
      · rintro rfl
        exact hno hc
      · rintro rfl
        exact hpass (.inl hc)
      · rintro rfl
        exact hpass (.inr hc)

/-- How many bytes of the pattern the last star has left behind. -/
def Scan.behind (s : Scan) : Nat := s.star.elim 0 (· + 1)

/-- A turn remembers a later star, moves the retry point, or passes a byte. -/
theorem Scan.Turn.decreases {pattern value : List UInt8} {b : UInt8} {s s' : Scan}
    (hv : value[s.v]? = some b) (h : Scan.Turn pattern b s s') :
    Prod.Lex (· < ·) (Prod.Lex (· < ·) (· < ·))
      (pattern.length - s'.behind, value.length - s'.retry, value.length - s'.v)
      (pattern.length - s.behind, value.length - s.retry, value.length - s.v) := by
  have hlt : s.v < value.length := (List.getElem?_eq_some_iff.mp hv).1
  have hretry := s.retry_le
  cases h with
  | pass c hc hb hp hv hstar hretry =>
      simp only [Scan.behind, hstar, hretry, hv]
      exact .right _ (.right _ (by omega))
  | remember hc hb hp hv hstar hretry =>
      have hplt : s.p < pattern.length := (List.getElem?_eq_some_iff.mp hc).1
      refine .left _ _ ?_
      simp only [Scan.behind, hstar, Option.elim_some]
      cases hold : s.star with
      | none => simp only [Option.elim_none]; omega
      | some starAt =>
          have := s.star_lt starAt hold
          simp only [Option.elim_some]
          omega
  | stretch starAt hold hc hp hv hstar hr =>
      simp only [Scan.behind, hstar, hold, hr]
      exact .right _ (.left _ _ (by omega))

/-- The first loop, and the comparison that follows the second one. -/
def Scan.run (pattern value : List UInt8) (s : Scan) : Bool :=
  match _hv : value[s.v]? with
  | some b =>
      match _hs : s.step pattern b with
      | some s' => s'.run pattern value
      | none => false
  | none => skipStars pattern s.p == pattern.length
termination_by (pattern.length - s.behind, value.length - s.retry, value.length - s.v)
decreasing_by exact (Scan.step_some _hs).decreases _hv

/-- `wildcard_match`. -/
def wildcardMatch (pattern value : List UInt8) : Bool :=
  Scan.start.run (pattern.map asciiLowercase) (value.map asciiLowercase)

/-! ## What the loop still has to read -/

/-- The pattern from here on reads the value from here on, or the last star can be
stretched so that it does. -/
def Scan.Reads (pattern value : List UInt8) (s : Scan) : Prop :=
  EagerMatches asterisk questionMark (pattern.drop s.p) (value.drop s.v) ∨
    ∃ starAt ∈ s.star, ∃ rest, rest <:+ value.drop (s.retry + 1) ∧
      EagerMatches asterisk questionMark (pattern.drop (starAt + 1)) rest

/-- What was passed since the last star lies over the value from the retry point on. -/
def Scan.Laid (pattern value : List UInt8) (s : Scan) : Prop :=
  ∀ starAt ∈ s.star, ∃ seg u, pattern.drop (starAt + 1) = seg ++ pattern.drop s.p ∧
    value.drop s.retry = u ++ value.drop s.v ∧ Aligned questionMark seg u

theorem asterisk_ne : asterisk ≠ questionMark := by decide

/-- Reading on from a byte of the value. -/
theorem drop_of_getElem? {l : List UInt8} {i : Nat} {b : UInt8} (h : l[i]? = some b) :
    l.drop i = b :: l.drop (i + 1) := by
  obtain ⟨hlt, rfl⟩ := List.getElem?_eq_some_iff.mp h
  exact List.drop_eq_getElem_cons hlt

/-- Stretching the last star loses nothing to what was passed since. -/
theorem Scan.Laid.not_ahead {pattern value : List UInt8} {s : Scan} (hl : s.Laid pattern value)
    {starAt : Nat} (hs : starAt ∈ s.star) {rest : List UInt8}
    (hrest : rest <:+ value.drop (s.retry + 1))
    (h : EagerMatches asterisk questionMark (pattern.drop (starAt + 1)) rest) :
    ∃ v', v' <:+ value.drop s.v ∧ EagerMatches asterisk questionMark (pattern.drop s.p) v' := by
  obtain ⟨seg, u, hp, hv, ha⟩ := hl starAt hs
  rw [hp] at h
  refine h.not_ahead asterisk_ne ha ?_
  rw [← hv]
  refine hrest.trans ?_
  rw [← List.drop_drop]
  exact List.drop_suffix 1 _

theorem Scan.Turn.laid {pattern value : List UInt8} {b : UInt8} {s s' : Scan}
    (hb : value[s.v]? = some b) (hl : s.Laid pattern value) (h : Scan.Turn pattern b s s') :
    s'.Laid pattern value := by
  intro starAt hs
  cases h with
  | pass c hc hcb hp hv hstar hretry =>
      rw [hstar] at hs
      obtain ⟨seg, u, hpat, hval, ha⟩ := hl starAt hs
      refine ⟨seg ++ [c], u ++ [b], ?_, ?_, ?_⟩
      · rw [hp, hpat, drop_of_getElem? hc, List.append_assoc, List.singleton_append]
      · rw [hretry, hv, hval, drop_of_getElem? hb, List.append_assoc, List.singleton_append]
      · exact List.rel_append ha (.cons hcb .nil)
  | remember hc hne hp hv hstar hretry =>
      rw [hstar] at hs
      cases hs
      exact ⟨[], [], by rw [hp]; rfl, by rw [hretry, hv]; rfl, .nil⟩
  | stretch old hold hc hp hv hstar hretry =>
      rw [hstar] at hs
      cases hs
      exact ⟨[], [], by rw [hp]; rfl, by rw [hretry, hv]; rfl, .nil⟩

/-- A byte of the pattern that neither passes nor is a star cannot read on. -/
theorem not_eager_of_mismatch {pattern value : List UInt8} {b : UInt8} {s : Scan}
    (hb : value[s.v]? = some b)
    (hc : ∀ c ∈ pattern[s.p]?, c ≠ asterisk ∧ c ≠ questionMark ∧ c ≠ b) :
    ¬EagerMatches asterisk questionMark (pattern.drop s.p) (value.drop s.v) := by
  intro h
  rw [drop_of_getElem? hb] at h
  cases hp : pattern[s.p]? with
  | none =>
      rw [List.drop_eq_nil_of_le (List.getElem?_eq_none_iff.mp hp), eager_nil] at h
      cases h
  | some c =>
      obtain ⟨hstar, hq, hcb⟩ := hc c hp
      rw [drop_of_getElem? hp] at h
      obtain ⟨b', rest, heq, hor, -⟩ := (eager_cons_of_ne hstar).mp h
      cases heq
      exact hor.elim hq hcb

/-- A turn changes the positions, not what is left to read. -/
theorem Scan.Turn.reads_iff {pattern value : List UInt8} {b : UInt8} {s s' : Scan}
    (hb : value[s.v]? = some b) (hl : s.Laid pattern value) (h : Scan.Turn pattern b s s') :
    s'.Reads pattern value ↔ s.Reads pattern value := by
  cases h with
  | pass c hc hcb hp hv hstar hretry =>
      rw [Scan.Reads, Scan.Reads, hstar, hretry, hp, hv]
      refine or_congr_left' fun _ => ?_
      rw [drop_of_getElem? hc, drop_of_getElem? hb]
      by_cases hca : c = asterisk
      · subst hca
        rw [or_iff_right asterisk_ne] at hcb
        subst hcb
        exact eager_star_star.symm
      · constructor
        · intro h
          exact (eager_cons_of_ne hca).mpr ⟨b, _, rfl, hcb, h⟩
        · intro h
          obtain ⟨b', rest, heq, -, hr⟩ := (eager_cons_of_ne hca).mp h
          cases heq
          exact hr
  | remember hc hne hp hv hstar hretry =>
      have hread : EagerMatches asterisk questionMark (pattern.drop s.p) (value.drop s.v) ↔
          ∃ rest, rest <:+ value.drop s.v ∧
            EagerMatches asterisk questionMark (pattern.drop (s.p + 1)) rest := by
        rw [drop_of_getElem? hc]
        refine eager_star_of_ne ?_
        rw [drop_of_getElem? hb, List.head?_cons]
        exact fun h => hne (Option.some.inj h)
      constructor
      · intro h
        left
        rw [hread]
        obtain h | ⟨_, hs, rest, hrest, hr⟩ := h
        · rw [hp, hv] at h
          exact ⟨_, List.suffix_rfl, h⟩
        · rw [hstar] at hs
          cases hs
          rw [hretry, ← List.drop_drop] at hrest
          exact ⟨rest, hrest.trans (List.drop_suffix 1 _), hr⟩
      · intro h
        -- the older star is forgotten: whatever it could still read, the new one reads
        have hnew : ∃ rest, rest <:+ value.drop s.v ∧
            EagerMatches asterisk questionMark (pattern.drop (s.p + 1)) rest := by
          obtain h | ⟨_, hs, rest, hrest, hr⟩ := h
          · exact hread.mp h
          · obtain ⟨v', hv', hr'⟩ := hl.not_ahead hs hrest hr
            rw [drop_of_getElem? hc] at hr'
            obtain ⟨rest', hrest', hr''⟩ := hr'.rest_suffix
            exact ⟨rest', hrest'.trans hv', hr''⟩
        obtain ⟨rest, hrest, hr⟩ := hnew
        rw [drop_of_getElem? hb] at hrest
        obtain rfl | hrest := List.suffix_cons_iff.mp hrest
        · left
          rwa [hp, hv, drop_of_getElem? hb]
        · exact .inr ⟨s.p, hstar, rest, by rwa [hretry], hr⟩
  | stretch starAt hold hc hp hv hstar hretry =>
      have hnot := not_eager_of_mismatch hb hc
      rw [Scan.Reads, Scan.Reads, hstar, hold, hp, hv, hretry, or_iff_right hnot]
      simp only [Option.mem_some_iff, exists_eq_left']
      constructor
      · intro h
        obtain h | ⟨rest, hrest, hr⟩ := h
        · exact ⟨_, List.suffix_rfl, h⟩
        · rw [← List.drop_drop] at hrest
          exact ⟨rest, hrest.trans (List.drop_suffix 1 _), hr⟩
      · rintro ⟨rest, hrest, hr⟩
        cases hlast : value[s.retry + 1]? with
        | none =>
            have hnil := List.drop_eq_nil_of_le (List.getElem?_eq_none_iff.mp hlast)
            rw [hnil] at hrest
            obtain rfl := List.suffix_nil.mp hrest
            exact .inl (by rwa [hnil])
        | some c =>
            rw [drop_of_getElem? hlast] at hrest
            obtain rfl | hrest := List.suffix_cons_iff.mp hrest
            · exact .inl (by rwa [drop_of_getElem? hlast])
            · exact .inr ⟨rest, hrest, hr⟩

theorem skipStars_eq_length_iff (pattern : List UInt8) (p : Nat) (hp : p ≤ pattern.length) :
    skipStars pattern p = pattern.length ↔ ∀ c ∈ pattern.drop p, c = asterisk := by
  induction p using skipStars.induct pattern with
  | case1 p h ih =>
      rw [skipStars, if_pos h, ih h.1, drop_of_getElem? h.2, List.forall_mem_cons]
      exact (and_iff_right rfl).symm
  | case2 p h =>
      rw [skipStars, if_neg h]
      constructor
      · rintro rfl
        simp
      · intro hall
        rcases hp.lt_or_eq with hlt | heq
        · have hhead := List.drop_eq_getElem_cons hlt
          refine absurd ⟨hlt, ?_⟩ h
          rw [List.getElem?_eq_getElem hlt]
          exact congrArg some (hall _ (by rw [hhead]; exact List.mem_cons_self))
        · exact heq

theorem Scan.Turn.p_le {pattern : List UInt8} {b : UInt8} {s s' : Scan}
    (hle : s.p ≤ pattern.length) (h : Scan.Turn pattern b s s') : s'.p ≤ pattern.length := by
  cases h with
  | pass c hc hb hp hv hstar hretry =>
      rw [hp]
      exact (List.getElem?_eq_some_iff.mp hc).1
  | remember hc hb hp hv hstar hretry =>
      rw [hp]
      exact (List.getElem?_eq_some_iff.mp hc).1
  | stretch starAt hold hc hp hv hstar hretry =>
      rw [hp]
      exact (s.star_lt starAt hold).trans_le hle

/-- At the end of the value only stars may be left. -/
theorem Scan.reads_iff_of_end {pattern value : List UInt8} {s : Scan}
    (hl : s.Laid pattern value) (hend : value[s.v]? = none) :
    s.Reads pattern value ↔ ∀ c ∈ pattern.drop s.p, c = asterisk := by
  have hnil : value.drop s.v = [] :=
    List.drop_eq_nil_of_le (List.getElem?_eq_none_iff.mp hend)
  rw [← @eager_nil_right _ asterisk questionMark]
  constructor
  · intro h
    obtain h | ⟨starAt, hs, rest, hrest, hr⟩ := h
    · rwa [hnil] at h
    · obtain ⟨v', hv', hr'⟩ := hl.not_ahead hs hrest hr
      rw [hnil] at hv'
      obtain rfl := List.suffix_nil.mp hv'
      exact hr'
  · intro h
    left
    rwa [hnil]

/-- The loop decides whether the pattern reads the value from here. -/
theorem Scan.run_iff {pattern value : List UInt8} {s : Scan} (hl : s.Laid pattern value)
    (hp : s.p ≤ pattern.length) : s.run pattern value = true ↔ s.Reads pattern value := by
  induction s using Scan.run.induct pattern value with
  | case1 s b hb s' hs ih =>
      have hturn := Scan.step_some hs
      have hrun : s.run pattern value = s'.run pattern value := by
        rw [Scan.run]
        split
        · next b' hb' =>
            cases hb.symm.trans hb'
            split
            · next hs' =>
                cases hs.symm.trans hs'
                rfl
            · next hs' => cases hs.symm.trans hs'
        · next hb' => cases hb.symm.trans hb'
      rw [hrun, ih (hturn.laid hb hl) (hturn.p_le hp)]
      exact hturn.reads_iff hb hl
  | case2 s b hb hs =>
      obtain ⟨hstar, hc⟩ := Scan.step_none hs
      have hrun : s.run pattern value = false := by
        rw [Scan.run]
        split
        · next b' hb' =>
            cases hb.symm.trans hb'
            split
            · next hs' => cases hs.symm.trans hs'
            · rfl
        · next hb' => cases hb.symm.trans hb'
      rw [hrun, Scan.Reads, hstar]
      simpa using not_eager_of_mismatch hb hc
  | case3 s hend =>
      have hrun : s.run pattern value = (skipStars pattern s.p == pattern.length) := by
        rw [Scan.run]
        split
        · next b' hb' => cases hend.symm.trans hb'
        · rfl
      rw [hrun, beq_iff_eq, skipStars_eq_length_iff pattern s.p hp]
      exact (Scan.reads_iff_of_end hl hend).symm

/-! ## What the matcher decides -/

/-- The matcher decides the eager reading of the pattern. -/
theorem wildcardMatch_eager (pattern value : List UInt8) :
    wildcardMatch pattern value = true ↔
      EagerMatches asterisk questionMark (pattern.map asciiLowercase)
        (value.map asciiLowercase) := by
  rw [wildcardMatch, Scan.run_iff (fun _ h => absurd h (Option.not_mem_none _)) (Nat.zero_le _),
    Scan.Reads]
  simp [Scan.start]

/-- The matcher accepts only instances of the glob. -/
theorem wildcardMatch_sound {pattern value : List UInt8} (h : wildcardMatch pattern value = true) :
    Matches asterisk questionMark (pattern.map asciiLowercase) (value.map asciiLowercase) :=
  ((wildcardMatch_eager pattern value).mp h).matches

theorem asciiLowercase_eq_asterisk {b : UInt8} : asciiLowercase b = asterisk ↔ b = asterisk := by
  unfold asciiLowercase asterisk
  split
  · next h =>
      have hlow := UInt8.le_iff_toNat_le.mp h.1
      have hhigh := UInt8.le_iff_toNat_le.mp h.2
      simp only [← UInt8.toNat_inj, UInt8.toNat_add, UInt8.toNat_ofNat] at hlow hhigh ⊢
      omega
  · exact Iff.rfl

/-- On a value without a star the matcher decides the glob. -/
theorem wildcardMatch_of_no_star {pattern value : List UInt8} (h : asterisk ∉ value) :
    wildcardMatch pattern value = true ↔
      Matches asterisk questionMark (pattern.map asciiLowercase) (value.map asciiLowercase) := by
  refine ⟨wildcardMatch_sound, fun hm => (wildcardMatch_eager pattern value).mpr (hm.eager ?_)⟩
  rw [List.mem_map]
  rintro ⟨b, hb, hlow⟩
  exact h (asciiLowercase_eq_asterisk.mp hlow ▸ hb)

/-- The matcher decides the glob exactly where the glob, if it has the value as an
instance at all, also has it with every star that stands at a star of the value taking
just that star. -/
theorem wildcardMatch_glob_iff (pattern value : List UInt8) :
    (wildcardMatch pattern value = true ↔
        Matches asterisk questionMark (pattern.map asciiLowercase)
          (value.map asciiLowercase)) ↔
      (Matches asterisk questionMark (pattern.map asciiLowercase)
          (value.map asciiLowercase) →
        EagerMatches asterisk questionMark (pattern.map asciiLowercase)
          (value.map asciiLowercase)) := by
  rw [wildcardMatch_eager]
  exact ⟨fun h => h.mpr, fun h => ⟨EagerMatches.matches, h⟩⟩

/-- `operator*` does not find `operator*=`: the star of the pattern is passed with the
star of the value, and nothing is left to take the last byte. -/
theorem wildcardMatch_misses_operator :
    ¬(wildcardMatch "operator*".toUTF8.toList "operator*=".toUTF8.toList = true ↔
      Matches asterisk questionMark ("operator*".toUTF8.toList.map asciiLowercase)
        ("operator*=".toUTF8.toList.map asciiLowercase)) := by
  have hp : "operator*".toUTF8.toList.map asciiLowercase =
      [0x6F, 0x70, 0x65, 0x72, 0x61, 0x74, 0x6F, 0x72, asterisk] := by decide +kernel
  have hv : "operator*=".toUTF8.toList.map asciiLowercase =
      [0x6F, 0x70, 0x65, 0x72, 0x61, 0x74, 0x6F, 0x72, asterisk, 0x3D] := by decide +kernel
  rw [wildcardMatch_eager, hp, hv]
  intro h
  have hglob : Matches asterisk questionMark
      [0x6F, 0x70, 0x65, 0x72, 0x61, 0x74, 0x6F, 0x72, asterisk]
      [0x6F, 0x70, 0x65, 0x72, 0x61, 0x74, 0x6F, 0x72, asterisk, 0x3D] :=
    .cons (.cons (.cons (.cons (.cons (.cons (.cons (.cons (.star_append [asterisk, 0x3D]
      matches_nil))))))))
  have heager := h.mpr hglob
  -- the eight letters pass, and the star takes the star
  iterate 8
    obtain ⟨_, _, heq, -, heager⟩ := (eager_cons_of_ne (by decide)).mp heager
    cases heq
  rw [eager_star_star] at heager
  cases heager

end PinBridge.HookQuery

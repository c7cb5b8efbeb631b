import Waterdisco.Scan.Targets

/-!
# The list of a scan's targets

The mixer permutes the words of its width (`permutes_mix`), so hosts of a range
have distinct addresses inside the range's prefix (`RangeOf` lemmas); the ranges
cut `[0, Total)` into consecutive blocks (`Chained`), which the binary search
finds again.
-/

namespace Waterdisco.Scan

open Nat List Option TargetRange Targets

/-! ## The mixer -/

variable {width limit s c : Nat} {rs : List TargetRange} {cs : List Nat}

variable (h : width ≤ 64)

include h

theorem bitMask_eq : bitMask width = 2 ^ width - 1 := by
  unfold bitMask
  split
  · rw [show width = 64 by omega]
  · rfl

theorem mod_and_bitMask (n : Nat) :
    n % 2 ^ 64 &&& bitMask width = n % 2 ^ width := by
  rw [bitMask_eq h, and_two_pow_sub_one_eq_mod]
  exact mod_mod_of_dvd n (pow_dvd_pow 2 h)

theorem mixerKeys_odd (n state : Nat) :
    ∀ r ∈ mixerKeys (bitMask width) n state, width = 0 ∨ r.2 % 2 = 1 := by
  induction n generalizing state with
  | zero => intro r hr; cases hr
  | succ n ih =>
    intro r hr
    rcases mem_cons.mp hr with rfl | hr
    · rcases Nat.eq_zero_or_pos width with h0 | hpos
      · exact .inl h0
      right
      simp only
      rw [bitMask_eq h, and_two_pow_sub_one_eq_mod,
        mod_mod_of_dvd _ (Dvd.intro_left (2 ^ (width - 1)) (by rw [← pow_succ]; congr 1; omega))]
      exact or_mod_two_eq_one.mpr (.inr rfl)
    · exact ih _ r hr

theorem permutes_round (m : Mixer) (hm : m.mask = bitMask width)
    (hs : 1 ≤ m.shift) (r : Nat × Nat) (hr : width = 0 ∨ r.2 % 2 = 1) :
    PermutesBelow (2 ^ width) (fun x => m.round x r) := by
  have hround : (fun x => m.round x r) = fun x =>
      (fun y => (y * r.2) % 2 ^ width) ((fun y => y ^^^ (y >>> m.shift)) ((x + r.1) % 2 ^ width)) := by
    unfold Mixer.round
    simp only [hm, mod_and_bitMask h]
  rw [hround]
  exact (permutes_mul width r.2 hr).comp ((permutes_xorShift width m.shift hs).comp (permutes_add width r.1))

/-- **The mixer permutes the words of its width.** -/
theorem permutes_mix (key : Nat) :
    PermutesBelow (2 ^ width) (newMixer width key).mix := by
  have hall : ∀ (rounds : List (Nat × Nat)), (∀ r ∈ rounds, width = 0 ∨ r.2 % 2 = 1) →
      PermutesBelow (2 ^ width) (fun x => rounds.foldl (newMixer width key).round x) := by
    intro rounds
    induction rounds with
    | nil => intro _; exact ⟨fun x hx => hx, fun x y _ _ he => he⟩
    | cons r rounds ih =>
      intro hodd
      have hfirst := permutes_round h (newMixer width key) rfl (le_max_left _ _) r (hodd r (.head _))
      exact (ih fun r' hr' => hodd r' (.tail _ hr')).comp hfirst
  exact hall _ (mixerKeys_odd h _ _)

omit h

/-! ## Addresses of a range -/

/-- A multiple of `d` below another multiple leaves room for anything below `d`. -/
theorem add_lt_of_dvd {d b n x : Nat} (hb : d ∣ b) (hn : d ∣ n) (hlt : b < n) (hx : x < d) : b + x < n := by
  obtain ⟨k, rfl⟩ := hb
  obtain ⟨m, rfl⟩ := hn
  have hkm : k < m := Nat.lt_of_mul_lt_mul_left hlt
  have hle : d * (k + 1) ≤ d * m := mul_le_mul_left d hkm
  rw [mul_add, mul_one] at hle
  omega

/-- What a range takes from its entry: the base is masked and an offset below the
host bits keeps a host apart. -/
structure RangeOf (p : Prefix) (hosts : Nat) (r : TargetRange) : Prop where
  base : r.base = p.addr
  masked : 2 ^ p.hostBits ∣ p.addr.value
  high : ∀ h, (r.offset h).1 < 2 ^ (p.hostBits - 64)
  low : ∀ h < hosts, (r.offset h).2 < 2 ^ min p.hostBits 64
  apart : ∀ h < hosts, ∀ h' < hosts, (r.offset h).2 = (r.offset h').2 → h = h'

section
variable {p : Prefix} {hosts : Nat} {r : TargetRange}

theorem Prefix.hostBits_le (p : Prefix) : p.hostBits ≤ p.addr.bitLen := sub_le _ _

theorem TargetRange.address_v4 (r : TargetRange) (i : Nat) (h : r.base.is4 = true) :
    (r.address i).is4 = true ∧
      (r.address i).value = (r.base.value + (r.offset i).2 % 2 ^ 32) % 2 ^ 32 := by
  unfold address
  simp [h]

theorem TargetRange.address_v6 (r : TargetRange) (i : Nat) (h : r.base.is4 = false) :
    (r.address i).is4 = false ∧
      (r.address i).value =
        (r.base.value / 2 ^ 64 + (r.offset i).1 + (r.base.value % 2 ^ 64 + (r.offset i).2) / 2 ^ 64) % 2 ^ 64 *
          2 ^ 64 + (r.base.value % 2 ^ 64 + (r.offset i).2) % 2 ^ 64 := by
  unfold address
  simp [h, Addr.as16]

theorem RangeOf.address_value (h : RangeOf p hosts r) {i : Nat} (hi : i < hosts) :
    (r.address i).is4 = p.addr.is4 ∧
      (r.address i).value = p.addr.value + ((r.offset i).1 * 2 ^ 64 + (r.offset i).2) := by
  have hhigh := h.high i
  have hlow := h.low i hi
  have hbits := p.hostBits_le
  have hlt := p.addr.lt
  unfold Addr.bitLen at hbits
  cases h4 : p.addr.is4 with
  | true =>
    obtain ⟨hf, hv⟩ := r.address_v4 i (by rw [h.base]; exact h4)
    rw [h4, if_pos rfl] at hbits hlt
    have hhigh0 : (r.offset i).1 = 0 := by
      rw [show p.hostBits - 64 = 0 by omega] at hhigh
      omega
    rw [show min p.hostBits 64 = p.hostBits by omega] at hlow
    have hsum := add_lt_of_dvd h.masked (pow_dvd_pow 2 hbits) hlt hlow
    refine ⟨hf, ?_⟩
    rw [hv, h.base, hhigh0, mod_eq_of_lt (a := (r.offset i).2) (by omega), mod_eq_of_lt hsum]
    omega
  | false =>
    obtain ⟨hf, hv⟩ := r.address_v6 i (by rw [h.base]; exact h4)
    rw [h4, if_neg (by simp)] at hbits hlt
    -- the low words have no carry and the high words no overflow
    have hlowsum : p.addr.value % 2 ^ 64 + (r.offset i).2 < 2 ^ 64 := by
      refine add_lt_of_dvd (d := 2 ^ min p.hostBits 64) ?_ (pow_dvd_pow 2 (min_le_right _ _))
        (Nat.mod_lt _ (Nat.two_pow_pos 64)) hlow
      rw [dvd_mod_iff (pow_dvd_pow 2 (min_le_right _ _))]
      exact (pow_dvd_pow 2 (min_le_left _ _)).trans h.masked
    have hhighsum : p.addr.value / 2 ^ 64 + (r.offset i).1 < 2 ^ 64 := by
      refine add_lt_of_dvd (d := 2 ^ (p.hostBits - 64)) ?_ (pow_dvd_pow 2 (by omega))
        (Nat.div_lt_of_lt_mul (by rw [← Nat.pow_add]; exact hlt)) hhigh
      rcases le_total p.hostBits 64 with hle | hle
      · rw [show p.hostBits - 64 = 0 by omega]
        exact one_dvd _
      have hm := h.masked
      rw [show p.hostBits = 64 + (p.hostBits - 64) by omega, pow_add] at hm
      exact dvd_div_of_mul_dvd hm
    refine ⟨hf, ?_⟩
    rw [hv, h.base, mod_eq_of_lt hlowsum, div_eq_of_lt hlowsum, add_zero,
      mod_eq_of_lt hhighsum, add_mul]
    omega

theorem RangeOf.offset_lt (h : RangeOf p hosts r) {i : Nat} (hi : i < hosts) :
    (r.offset i).1 * 2 ^ 64 + (r.offset i).2 < 2 ^ p.hostBits := by
  have hhigh := h.high i
  have hlow := h.low i hi
  rcases le_total p.hostBits 64 with hle | hle
  · rw [show p.hostBits - 64 = 0 by omega] at hhigh
    rw [show min p.hostBits 64 = p.hostBits by omega] at hlow
    have h0 : (r.offset i).1 = 0 := by omega
    omega
  · rw [show min p.hostBits 64 = 64 by omega] at hlow
    calc (r.offset i).1 * 2 ^ 64 + (r.offset i).2
        < ((r.offset i).1 + 1) * 2 ^ 64 := by rw [add_mul]; omega
      _ ≤ 2 ^ (p.hostBits - 64) * 2 ^ 64 := mul_le_mul_right _ hhigh
      _ = 2 ^ p.hostBits := by rw [← pow_add]; congr 1; omega

theorem RangeOf.contains (h : RangeOf p hosts r) {i : Nat} (hi : i < hosts) : p.Contains (r.address i) := by
  obtain ⟨h4, hv⟩ := h.address_value hi
  refine ⟨h4, ?_⟩
  obtain ⟨k, hk⟩ := h.masked
  have hoff := h.offset_lt hi
  rw [hv, hk, Nat.mul_add_div (Nat.two_pow_pos _), Nat.div_eq_of_lt hoff, Nat.add_zero,
    Nat.mul_div_cancel_left _ (Nat.two_pow_pos _)]

theorem RangeOf.address_inj (h : RangeOf p hosts r) {i j : Nat} (hi : i < hosts) (hj : j < hosts)
    (he : r.address i = r.address j) : i = j := by
  have hv := congrArg Addr.value he
  rw [(h.address_value hi).2, (h.address_value hj).2] at hv
  refine h.apart i hi j hj ?_
  have hlow : ∀ k < hosts, (r.offset k).2 < 2 ^ 64 := fun k hk =>
    Nat.lt_of_lt_of_le (h.low k hk) (Nat.pow_le_pow_right (by omega) (Nat.min_le_right _ _))
  have h1 := hlow i hi
  have h2 := hlow j hj
  omega

end

/-! ## Ranges of entries -/

theorem Spec.limit_lt (spec : Spec) : spec.limit < 2 ^ 64 := by
  have h := spec.maxHostsPerEntry.toInt_lt
  unfold Spec.limit
  split
  · omega
  · omega

theorem entryHosts_le (hl : limit < 2 ^ 64) (hostBits : Nat) :
    entryHosts limit hostBits ≤ 2 ^ min hostBits 64 := by
  have hlim : entryLimit limit hostBits < 2 ^ 64 := by
    unfold entryLimit defaultSampleSize
    split <;> omega
  unfold entryHosts
  split
  · rename_i hs
    rcases lt_or_ge hostBits 64 with h64 | h64
    · rw [show min hostBits 64 = hostBits by omega]
      have hs := (of_decide_eq_true hs).2
      rcases hs with hs | hs
      · omega
      · exact le_of_lt hs
    · rw [show min hostBits 64 = 64 by omega]
      omega
  · split
    · rw [show min hostBits 64 = hostBits by omega]
    · exact zero_le _

theorem entryHosts_pos (limit hostBits : Nat) : 0 < entryHosts limit hostBits := by
  unfold entryHosts
  split
  · rename_i hs
    exact (of_decide_eq_true hs).1
  rename_i hs
  split
  · exact Nat.two_pow_pos _
  exfalso
  apply hs
  have hlim : 0 < entryLimit limit hostBits := by
    unfold entryLimit maxEnumeratedBits defaultSampleSize
    split <;> omega
  exact decide_eq_true ⟨hlim, .inl (by omega)⟩

variable {p : Prefix}

theorem rangeOf_newRange (hl : limit < 2 ^ 64) (seed start : Nat)
    (hm : 2 ^ p.hostBits ∣ p.addr.value) (ports : List Nat) :
    RangeOf p (entryHosts limit p.hostBits) (newRange limit seed start p ports) := by
  have hle := entryHosts_le hl p.hostBits
  have hbits : p.hostBits ≤ 128 := by
    have h1 := p.hostBits_le
    have h2 : p.addr.bitLen ≤ 128 := by unfold Addr.bitLen; split <;> omega
    omega
  cases hs : isSampled limit p.hostBits with
  | true =>
    have hmix := permutes_mix (min_le_right p.hostBits 64) (seed ^^^ prefixHash p)
    have hoff : ∀ h, (newRange limit seed start p ports).offset h =
        (if 64 < p.hostBits then
          (splitmix64 (h ^^^ (splitmix64 (seed ^^^ prefixHash p)).2)).2 &&& bitMask (p.hostBits - 64) else 0,
          (newMixer (min p.hostBits 64) (seed ^^^ prefixHash p)).mix h) := by
      simp [offset, newRange, hs]
    refine ⟨rfl, hm, fun h => ?_, fun h hh => ?_, fun h hh h' hh' he => ?_⟩
    · rw [hoff]
      split
      · rw [bitMask_eq (by omega), and_two_pow_sub_one_eq_mod]
        exact Nat.mod_lt _ (Nat.two_pow_pos _)
      · exact Nat.two_pow_pos _
    · rw [hoff]
      exact hmix.maps h (by omega)
    · rw [hoff, hoff] at he
      exact hmix.inj h h' (by omega) (by omega) he
  | false =>
    have hoff : ∀ h, (newRange limit seed start p ports).offset h = (0, h) := by
      simp [offset, newRange, hs]
    refine ⟨rfl, hm, fun h => ?_, fun h hh => ?_, fun h _ h' _ he => ?_⟩
    · rw [hoff]
      exact Nat.two_pow_pos _
    · rw [hoff]
      exact lt_of_lt_of_le hh hle
    · rw [hoff, hoff] at he
      exact he

/-! ## Ports -/

theorem normalizePorts_nodup (ports : List Int) : (normalizePorts ports).Nodup := by
  have hstep : ∀ (l : List Int) (out : List Nat), out.Nodup →
      (l.foldl (fun out port =>
        if port < 1 ∨ 0xffff < port ∨ port.toNat ∈ out then out else out ++ [port.toNat]) out).Nodup := by
    intro l
    induction l with
    | nil => intro out h; exact h
    | cons port l ih =>
      intro out h
      rw [foldl_cons]
      apply ih
      split
      · exact h
      rename_i hn
      rw [not_or, not_or] at hn
      refine nodup_append.mpr ⟨h, by simp, ?_⟩
      rintro a ha b hb rfl
      rw [mem_singleton] at hb
      exact hn.2.2 (hb ▸ ha)
  exact hstep ports [] nodup_nil

theorem entryPorts_ok (mode : PortMode) (port : Nat) {defaults : List Nat} (hd : defaults.Nodup) :
    (entryPorts mode port defaults).Nodup ∧ 0 < (entryPorts mode port defaults).length := by
  have key : ∀ ports : List Nat, ports.Nodup →
      (if ports.isEmpty then [0] else ports).Nodup ∧ 0 < (if ports.isEmpty then [0] else ports).length := by
    intro ports h
    split
    · simp
    · rename_i hne
      exact ⟨h, length_pos_iff.mpr (by simpa using hne)⟩
  apply key
  cases mode with
  | entry =>
    simp only
    split
    · simp
    · exact hd
  | ignore => exact hd
  | list =>
    simp only
    split
    · simp
    · simp
  | merge =>
    simp only
    split
    · exact hd
    · rw [nodup_cons]
      exact ⟨by simp, hd.filter _⟩

/-! ## Blocks -/

/-- The first `count` targets of a range. -/
def TargetRange.block (r : TargetRange) (count : Nat) : List Target := (range count).map r.target

/-- What one entry contributes from position `start` on: targets inside its masked
prefix and ports, none twice, all of them unless sampled or cut by the cap. -/
structure BlockOk (limit start : Nat) (p : Prefix) (ports : List Nat) (block : List Target) : Prop where
  inside : ∀ t ∈ block, p.Contains t.addr ∧ t.port ∈ ports
  once : block.Nodup
  complete : isSampled limit p.hostBits = false → start + 2 ^ p.hostBits * ports.length ≤ maxTargetTotal →
    ∀ a, p.Contains a → ∀ port ∈ ports, block.count { addr := a, port } = 1

section
variable {p : Prefix} {hosts : Nat} {r : TargetRange}

theorem TargetRange.port_mem (r : TargetRange) (hpos : 0 < r.ports.length) (i : Nat) :
    (r.target i).port ∈ r.ports := by
  have hlt : i % r.ports.length < r.ports.length := mod_lt _ hpos
  show (r.ports[i % r.ports.length]?).getD 0 ∈ r.ports
  rw [getElem?_eq_getElem hlt]
  exact getElem_mem hlt

/-- Positions of a range below `hosts * ports` have distinct targets. -/
theorem RangeOf.target_inj (h : RangeOf p hosts r) (hnd : r.ports.Nodup) (hpos : 0 < r.ports.length) {i j : Nat}
    (hi : i < hosts * r.ports.length) (hj : j < hosts * r.ports.length) (he : r.target i = r.target j) :
    i = j := by
  have hlt : ∀ k, k % r.ports.length < r.ports.length := fun k => mod_lt _ hpos
  have hhost : ∀ k < hosts * r.ports.length, k / r.ports.length < hosts := fun k hk =>
    Nat.div_lt_of_lt_mul (by rw [Nat.mul_comm]; exact hk)
  have hdiv := h.address_inj (hhost i hi) (hhost j hj) (congrArg Target.addr he)
  have hport : (r.ports[i % r.ports.length]?).getD 0 = (r.ports[j % r.ports.length]?).getD 0 :=
    congrArg Target.port he
  rw [getElem?_eq_getElem (hlt i), getElem?_eq_getElem (hlt j)] at hport
  have hmod := (hnd.getElem_inj_iff).mp hport
  rw [← div_add_mod i r.ports.length, ← div_add_mod j r.ports.length, hdiv, hmod]

end

theorem saturatingMul_le (a b : Nat) : saturatingMul a b ≤ a * b := by
  unfold saturatingMul maxTargetTotal
  split <;> omega

theorem Addr.eq_of_value {a b : Addr} (h4 : a.is4 = b.is4) (hv : a.value = b.value) : a = b := by
  cases b
  cases h4
  cases hv
  rfl

theorem address_of_contains (hl : limit < 2 ^ 64) (seed start : Nat)
    (hm : 2 ^ p.hostBits ∣ p.addr.value) (ports : List Nat) (hs : isSampled limit p.hostBits = false) {a : Addr}
    (ha : p.Contains a) :
    ∃ h < 2 ^ p.hostBits, entryHosts limit p.hostBits = 2 ^ p.hostBits ∧
      (newRange limit seed start p ports).address h = a := by
  have hhosts : entryHosts limit p.hostBits = 2 ^ p.hostBits := by
    have hpos := entryHosts_pos limit p.hostBits
    unfold entryHosts at hpos ⊢
    rw [hs] at hpos ⊢
    simp only [Bool.false_eq_true, if_false] at hpos ⊢
    split at hpos
    · rename_i h64
      rw [if_pos h64]
    · omega
  obtain ⟨k, hk⟩ := hm
  obtain ⟨h4, hdiv⟩ := ha
  rw [hk, Nat.mul_div_cancel_left _ (Nat.two_pow_pos _)] at hdiv
  have hsplit := Nat.div_add_mod a.value (2 ^ p.hostBits)
  rw [hdiv, ← hk] at hsplit
  have hlt : a.value % 2 ^ p.hostBits < 2 ^ p.hostBits := Nat.mod_lt _ (Nat.two_pow_pos _)
  refine ⟨a.value % 2 ^ p.hostBits, hlt, hhosts, ?_⟩
  obtain ⟨hf, hv⟩ := (rangeOf_newRange hl seed start ⟨k, hk⟩ ports).address_value
    (by rw [hhosts]; exact hlt)
  have hoff : (newRange limit seed start p ports).offset (a.value % 2 ^ p.hostBits) =
      (0, a.value % 2 ^ p.hostBits) := by
    simp [offset, newRange, hs]
  refine Addr.eq_of_value (hf.trans h4.symm) ?_
  rw [hv, hoff]
  omega

/-- **The block of one entry.** -/
theorem blockOk_newRange (hl : limit < 2 ^ 64) (seed start : Nat)
    (hm : 2 ^ p.hostBits ∣ p.addr.value) {ports : List Nat} (hnd : ports.Nodup) (hpos : 0 < ports.length) :
    BlockOk limit start p ports ((newRange limit seed start p ports).block
      (min (saturatingMul (entryHosts limit p.hostBits) ports.length) (maxTargetTotal - start))) := by
  have hr := rangeOf_newRange hl seed start hm ports
  have hcount : ∀ i < min (saturatingMul (entryHosts limit p.hostBits) ports.length) (maxTargetTotal - start),
      i < entryHosts limit p.hostBits * ports.length := by
    have := saturatingMul_le (entryHosts limit p.hostBits) ports.length
    omega
  have honce : ((newRange limit seed start p ports).block
      (min (saturatingMul (entryHosts limit p.hostBits) ports.length) (maxTargetTotal - start))).Nodup := by
    refine Nodup.map_on ?_ nodup_range
    intro i hi j hj he
    exact hr.target_inj hnd hpos (hcount i (mem_range.mp hi)) (hcount j (mem_range.mp hj)) he
  refine ⟨?_, honce, ?_⟩
  · intro t ht
    obtain ⟨i, hi, rfl⟩ := mem_map.mp ht
    have hi := hcount i (mem_range.mp hi)
    exact ⟨hr.contains (Nat.div_lt_of_lt_mul (by rw [Nat.mul_comm]; exact hi)),
      (newRange limit seed start p ports).port_mem hpos i⟩
  · intro hs hcap a ha port hport
    obtain ⟨h, hh, hhosts, haddr⟩ := address_of_contains hl seed start hm ports hs ha
    obtain ⟨j, hj, hget⟩ := mem_iff_getElem.mp hport
    refine count_eq_one_of_mem honce (mem_map.mpr ⟨h * ports.length + j, ?_, ?_⟩)
    · rw [mem_range, hhosts]
      have hfull : saturatingMul (2 ^ p.hostBits) ports.length = 2 ^ p.hostBits * ports.length := by
        unfold saturatingMul
        rw [if_neg]
        unfold maxTargetTotal at hcap ⊢
        omega
      have hlt : h * ports.length + j < 2 ^ p.hostBits * ports.length := by
        calc h * ports.length + j < (h + 1) * ports.length := by rw [add_mul]; omega
          _ ≤ 2 ^ p.hostBits * ports.length := mul_le_mul_right _ hh
      omega
    · have hdiv : (h * ports.length + j) / ports.length = h := by
        rw [mul_comm, mul_add_div hpos, div_eq_of_lt hj, add_zero]
      have hmod : (h * ports.length + j) % ports.length = j := by
        rw [mul_comm, mul_add_mod, mod_eq_of_lt hj]
      show Target.mk ((newRange limit seed start p ports).address ((h * ports.length + j) / ports.length))
        ((ports[(h * ports.length + j) % ports.length]?).getD 0) = _
      rw [hdiv, hmod, haddr, getElem?_eq_getElem hj, getD_some, hget]

/-! ## Positions -/

/-- Ranges that follow one another from `s` on, with their counts. -/
inductive Chained : Nat → List TargetRange → List Nat → Prop
  | nil (s : Nat) : Chained s [] []
  | cons {s c : Nat} {r : TargetRange} {rs : List TargetRange} {cs : List Nat} (hs : r.start = s) (hc : 0 < c)
      (h : Chained (s + c) rs cs) : Chained s (r :: rs) (c :: cs)

theorem Chained.snoc (h : Chained s rs cs) {r : TargetRange}
    (hs : r.start = s + cs.sum) (hc : 0 < c) : Chained s (rs ++ [r]) (cs ++ [c]) := by
  induction h with
  | nil s => exact .cons (by simpa using hs) hc (.nil _)
  | cons hs' hc' _ ih => exact .cons hs' hc' (ih (by rw [hs, sum_cons]; omega))

theorem Chained.length_eq (h : Chained s rs cs) :
    rs.length = cs.length := by
  induction h with
  | nil => rfl
  | cons _ _ _ ih => simp [ih]

theorem Chained.start_ge (h : Chained s rs cs) :
    ∀ r ∈ rs, s ≤ r.start := by
  induction h with
  | nil => intro r hr; cases hr
  | cons hs hc _ ih =>
    intro r hr
    rcases mem_cons.mp hr with rfl | hr
    · omega
    · have := ih r hr
      omega

/-- The ranges begin in increasing order. -/
theorem Chained.sorted (h : Chained s rs cs) :
    rs.Pairwise fun a b => a.start ≤ b.start := by
  induction h with
  | nil => exact Pairwise.nil
  | cons hs hc h ih =>
    refine Pairwise.cons (fun b hb => ?_) ih
    have := h.start_ge b hb
    omega

/-- Over ranges in increasing order, the search finds the first that begins after
the position. -/
theorem search_eq_findIdx (rs : List TargetRange) (hsorted : rs.Pairwise fun a b => a.start ≤ b.start) (g : Nat) :
    search rs.length (fun i => decide (((rs[i]?).map (·.start)).getD 0 > g)) =
      rs.findIdx fun r => decide (g < r.start) := by
  have htest : ∀ i, (hi : i < rs.length) → (decide (((rs[i]?).map (·.start)).getD 0 > g) = true ↔
      g < rs[i].start) := by
    intro i hi
    simp [getElem?_eq_getElem hi]
  obtain ⟨hle, hbefore, hafter⟩ := search_spec rs.length
    (fun i => decide (((rs[i]?).map (·.start)).getD 0 > g)) (by
      intro a b hab hb ht
      rw [htest b hb]
      rw [htest a (by omega)] at ht
      rcases eq_or_lt_of_le hab with rfl | hlt
      · exact ht
      · have := pairwise_iff_getElem.mp hsorted a b (by omega) hb hlt
        omega)
  generalize search rs.length (fun i => decide (((rs[i]?).map (·.start)).getD 0 > g)) = m at *
  rcases lt_trichotomy m (rs.findIdx fun r => decide (g < r.start)) with hlt | heq | hgt
  · have hlen : m < rs.length := lt_of_lt_of_le hlt findIdx_le_length
    have h1 := (htest m hlen).mp (hafter m (.refl) hlen)
    have h2 := not_of_lt_findIdx hlt
    exact absurd h1 (of_decide_eq_false h2)
  · exact heq
  · have hlen : (rs.findIdx fun r => decide (g < r.start)) < rs.length := by omega
    have h1 := hbefore _ hgt
    have h2 := (htest _ hlen).mpr (of_decide_eq_true (findIdx_getElem (w := hlen)))
    rw [h1] at h2
    cases h2

/-- The range before the first that begins after the position. -/
def rangeBefore (rs : List TargetRange) (g : Nat) : Option TargetRange :=
  rs[(rs.findIdx fun r => decide (g < r.start)) - 1]?

theorem rangeBefore_first {g : Nat} {r : TargetRange}
    (h : Chained s (r :: rs) (c :: cs)) (hs : s ≤ g) (hg : g < s + c) : rangeBefore (r :: rs) g = some r := by
  cases h with
  | cons hstart hc h =>
    have hrest : (rs.findIdx fun r => decide (g < r.start)) = 0 := by
      cases h with
      | nil => rfl
      | cons hstart' _ _ =>
        rw [findIdx_cons, show decide (g < _) = true by simp [hstart']; omega]
        rfl
    unfold rangeBefore
    rw [findIdx_cons, show decide (g < r.start) = false by simp [hstart]; omega, hrest]
    rfl

theorem rangeBefore_rest {g : Nat} {r : TargetRange}
    (h : Chained s (r :: rs) (c :: cs)) (hg : s + c ≤ g) (hne : rs ≠ []) :
    rangeBefore (r :: rs) g = rangeBefore rs g := by
  cases h with
  | cons hstart hc h =>
    cases h with
    | nil => exact absurd rfl hne
    | @cons _ c' r' rs' cs' hstart' hc' _ =>
      unfold rangeBefore
      rw [findIdx_cons, show decide (g < r.start) = false by simp [hstart]; omega,
        findIdx_cons, show decide (g < r'.start) = false by simp [hstart']; omega]
      rfl

/-- The blocks of the ranges, one after another. -/
def blocksOf (rs : List TargetRange) (cs : List Nat) : List Target :=
  (rs.zip cs).flatMap fun p => p.1.block p.2

/-- **The positions of chained ranges list their blocks.** -/
theorem Chained.list (h : Chained s rs cs) :
    (range' s cs.sum).map (fun g => (rangeBefore rs g).map fun r => r.target (g - r.start)) =
      (blocksOf rs cs).map some := by
  induction h with
  | nil s => rfl
  | @cons s c r rs cs hs hc h ih =>
    have hall := Chained.cons hs hc h
    rw [sum_cons, ← range'_append_1, map_append]
    unfold blocksOf
    rw [zip_cons_cons, flatMap_cons, map_append]
    congr 1
    · unfold block
      rw [List.map_map, List.range'_eq_map_range, List.map_map]
      refine map_congr_left fun i hi => ?_
      have hi := mem_range.mp hi
      simp only [Function.comp_apply]
      rw [rangeBefore_first hall (by omega) (by omega), Option.map_some, hs, Nat.add_sub_cancel_left]
    · rw [← show _ = ((rs.zip cs).flatMap fun p => p.1.block p.2).map some from ih]
      refine map_congr_left fun g hg => ?_
      have hg := mem_range'_1.mp hg
      rw [rangeBefore_rest hall hg.1]
      rintro rfl
      cases h
      simp at hg
      omega

/-! ## All entries -/

/-- One block per entry, in turn; `start` is where the next one begins. -/
def Covers (limit : Nat) : Nat → List (Prefix × List Nat) → List (List Target) → Prop
  | _, [], [] => True
  | start, e :: es, b :: bs => BlockOk limit start e.1 e.2 b ∧ Covers limit (start + b.length) es bs
  | _, _, _ => False

theorem Covers.block {start : Nat} {es : List (Prefix × List Nat)} {bs : List (List Target)}
    (h : Covers limit start es bs) {b : List Target} (hb : b ∈ bs) :
    ∃ e ∈ es, ∃ start', BlockOk limit start' e.1 e.2 b := by
  induction es generalizing start bs with
  | nil =>
    cases bs with
    | nil => cases hb
    | cons b' bs => exact h.elim
  | cons e es ih =>
    cases bs with
    | nil => exact h.elim
    | cons b' bs =>
      rcases mem_cons.mp hb with rfl | hb
      · exact ⟨e, by simp, start, h.1⟩
      · obtain ⟨e', he', hok⟩ := ih h.2 hb
        exact ⟨e', mem_cons_of_mem _ he', hok⟩

theorem masked_dvd (p : Prefix) : 2 ^ p.masked.hostBits ∣ p.masked.addr.value :=
  ⟨p.addr.value / 2 ^ p.hostBits, mul_comm _ _⟩

/-- The ranges so far: chained from 0, with their counts adding up to the total. -/
structure Built (t : Targets) (cs : List Nat) : Prop where
  chained : Chained 0 t.ranges cs
  sum : cs.sum = t.total
  cap : t.total ≤ maxTargetTotal

section
variable (trimSpace : String → String) (parsePrefix : String → Option Prefix) (parseAddr : String → Option Addr)

theorem validEntry_ok {spec : Spec} {entry : Entry} {ports : List Nat}
    (h : validEntry trimSpace parsePrefix parseAddr spec entry = some (p, ports)) :
    2 ^ p.hostBits ∣ p.addr.value ∧ ports.Nodup ∧ 0 < ports.length := by
  unfold validEntry at h
  split at h
  · cases h
  rename_i q hq
  split at h
  · cases h
  obtain ⟨rfl, rfl⟩ := Prod.mk.inj (some.inj h)
  refine ⟨?_, entryPorts_ok _ _ (normalizePorts_nodup _)⟩
  obtain ⟨r, -, rfl⟩ := map_eq_some_iff.mp hq
  exact masked_dvd _

theorem addRange_built {limit : Nat} (hl : limit < 2 ^ 64) (seed : Nat) {t : Targets} {cs : List Nat}
    (h : Built t cs) {ports : List Nat} (hm : 2 ^ p.hostBits ∣ p.addr.value) (hnd : ports.Nodup)
    (hpos : 0 < ports.length) :
    ∃ cs' block, Built (addRange limit seed t p ports) cs' ∧ BlockOk limit t.total p ports block ∧
      (addRange limit seed t p ports).total = t.total + block.length ∧
      blocksOf (addRange limit seed t p ports).ranges cs' = blocksOf t.ranges cs ++ block := by
  have hok := blockOk_newRange hl seed t.total hm hnd hpos
  unfold addRange
  simp only
  generalize hc : min (saturatingMul (entryHosts limit p.hostBits) ports.length)
    (maxTargetTotal - t.total) = count at hok ⊢
  have hlen : ((newRange limit seed t.total p ports).block count).length = count := by
    simp [block]
  split
  · rename_i h0
    rw [h0] at hok
    exact ⟨cs, [], h, hok, rfl, by simp⟩
  refine ⟨cs ++ [count], _, ⟨h.chained.snoc ?_ (by omega), ?_, ?_⟩, hok, ?_, ?_⟩
  · show t.total = 0 + cs.sum
    rw [h.sum, zero_add]
  · simp [h.sum]
  · have hcap := h.cap
    show t.total + count ≤ maxTargetTotal
    omega
  · show t.total + count = _
    rw [hlen]
  · unfold blocksOf
    rw [zip_append h.chained.length_eq, flatMap_append]
    simp

theorem addEntries_built (spec : Spec) (entries : List Entry) :
    ∀ (t : Targets) (cs : List Nat), Built t cs →
      ∃ cs' blocks,
        Built (entries.foldl (addEntry trimSpace parsePrefix parseAddr spec) t) cs' ∧
        Covers spec.limit t.total
          (entries.filterMap (validEntry trimSpace parsePrefix parseAddr spec)) blocks ∧
        blocksOf (entries.foldl (addEntry trimSpace parsePrefix parseAddr spec) t).ranges cs' =
          blocksOf t.ranges cs ++ blocks.flatten := by
  induction entries with
  | nil => exact fun t cs h => ⟨cs, [], h, trivial, by simp⟩
  | cons entry entries ih =>
    intro t cs h
    rw [foldl_cons, filterMap_cons]
    cases hv : validEntry trimSpace parsePrefix parseAddr spec entry with
    | none =>
      have hadd : addEntry trimSpace parsePrefix parseAddr spec t entry =
          { t with invalidEntries := t.invalidEntries + 1 } := by
        unfold addEntry
        rw [hv]
      rw [hadd]
      exact ih _ cs ⟨h.chained, h.sum, h.cap⟩
    | some pair =>
      obtain ⟨p, ports⟩ := pair
      have hadd : addEntry trimSpace parsePrefix parseAddr spec t entry =
          addRange spec.limit spec.seed.toNat t p ports := by
        unfold addEntry
        rw [hv]
      obtain ⟨hm, hnd, hpos⟩ := validEntry_ok trimSpace parsePrefix parseAddr hv
      obtain ⟨cs₁, block, hb₁, hok, htotal, hblocks⟩ :=
        addRange_built spec.limit_lt spec.seed.toNat h hm hnd hpos
      obtain ⟨cs₂, blocks, hb₂, hcov, hrest⟩ := ih _ cs₁ hb₁
      rw [hadd]
      refine ⟨cs₂, block :: blocks, hb₂, ⟨hok, ?_⟩, ?_⟩
      · rw [htotal] at hcov
        exact hcov
      · rw [hrest, hblocks, flatten_cons, append_assoc]

end

/-! ## The list -/

/-- `At(0), …, At(Total - 1)` -/
def Targets.targets (t : Targets) : List (Option Target) := (range t.total).map t.atPosition

theorem lt_two_pow_len64 (n : Nat) : n < 2 ^ len64 n := by
  unfold len64
  split
  · omega
  · exact lt_log2_self

theorem len64_le {n : Nat} (h : n < maxTargetTotal) : len64 n ≤ 64 := by
  unfold len64
  split
  · omega
  rename_i hne
  have hlog : n.log2 < 62 := (log2_lt hne).mpr h
  omega

theorem permutes_permute (t : Targets) (seed : Nat) (hcap : t.total ≤ maxTargetTotal)
    (horder : 1 < t.total → t.order = newMixer (len64 (t.total - 1)) seed) :
    PermutesBelow t.total t.permute := by
  rcases lt_or_ge 1 t.total with h1 | h1
  · have hlen := len64_le (n := t.total - 1) (by omega)
    have hmix := permutes_mix hlen seed
    have hlt := lt_two_pow_len64 (t.total - 1)
    have heq : t.permute = fun x => walk (newMixer (len64 (t.total - 1)) seed).mix t.total (2 ^ 64)
        ((newMixer (len64 (t.total - 1)) seed).mix x) := by
      funext x
      unfold permute
      rw [if_neg (by omega), horder h1]
    rw [heq]
    exact permutes_walk hmix (by omega) (Nat.pow_le_pow_right (by omega) hlen)
  · refine ⟨fun x hx => ?_, fun x y hx hy _ => by omega⟩
    unfold permute
    rw [if_pos h1]
    omega

theorem addRange_shuffle (limit seed : Nat) (t : Targets) (p : Prefix) (ports : List Nat) (b : Bool) :
    addRange limit seed { t with shuffle := b } p ports =
      { addRange limit seed t p ports with shuffle := b } := by
  unfold addRange
  by_cases h : min (saturatingMul (entryHosts limit p.hostBits) ports.length) (maxTargetTotal - t.total) = 0
  · simp only [if_pos h]
  · simp only [if_neg h]

section
variable (trimSpace : String → String) (parsePrefix : String → Option Prefix) (parseAddr : String → Option Addr)

/-- The entries' ranges before the order is chosen. -/
def rangesOf (spec : Spec) : Targets :=
  spec.entries.foldl (addEntry trimSpace parsePrefix parseAddr spec) {}

variable (spec : Spec)

theorem addEntry_shuffle (t : Targets) (entry : Entry) (b : Bool) :
    addEntry trimSpace parsePrefix parseAddr { spec with shuffle := b } { t with shuffle := b } entry =
      { addEntry trimSpace parsePrefix parseAddr spec t entry with shuffle := b } := by
  have hv : validEntry trimSpace parsePrefix parseAddr { spec with shuffle := b } entry =
      validEntry trimSpace parsePrefix parseAddr spec entry := rfl
  unfold addEntry
  rw [hv]
  split
  · rfl
  · exact addRange_shuffle _ _ _ _ _ b

/-- Whether the list is shuffled is noted and decides nothing else. -/
theorem newTargets_eq (b : Bool) :
    newTargets trimSpace parsePrefix parseAddr { spec with shuffle := b } =
      { rangesOf trimSpace parsePrefix parseAddr spec with
        shuffle := b
        order := if 1 < (rangesOf trimSpace parsePrefix parseAddr spec).total then
            newMixer (len64 ((rangesOf trimSpace parsePrefix parseAddr spec).total - 1)) spec.seed.toNat
          else (rangesOf trimSpace parsePrefix parseAddr spec).order } := by
  have hfold : ∀ (entries : List Entry) (t : Targets),
      entries.foldl (addEntry trimSpace parsePrefix parseAddr { spec with shuffle := b }) { t with shuffle := b } =
        { entries.foldl (addEntry trimSpace parsePrefix parseAddr spec) t with shuffle := b } := by
    intro entries
    induction entries with
    | nil => exact fun t => rfl
    | cons entry entries ih =>
      intro t
      rw [foldl_cons, foldl_cons, addEntry_shuffle]
      exact ih _
  have h : spec.entries.foldl (addEntry trimSpace parsePrefix parseAddr { spec with shuffle := b })
      { shuffle := b } = { rangesOf trimSpace parsePrefix parseAddr spec with shuffle := b } :=
    hfold spec.entries {}
  unfold newTargets
  simp only [h]
  by_cases h1 : 1 < (rangesOf trimSpace parsePrefix parseAddr spec).total
  · simp only [if_pos h1]
  · simp only [if_neg h1]

theorem newTargets_total (b : Bool) :
    (newTargets trimSpace parsePrefix parseAddr { spec with shuffle := b }).total =
      (rangesOf trimSpace parsePrefix parseAddr spec).total := by
  rw [newTargets_eq]

/-- Unshuffled, the targets are one block per valid entry, in turn. -/
theorem newTargets_plain :
    ∃ blocks,
      (newTargets trimSpace parsePrefix parseAddr { spec with shuffle := false }).targets =
        blocks.flatten.map some ∧
      Covers spec.limit 0 (spec.entries.filterMap (validEntry trimSpace parsePrefix parseAddr spec)) blocks := by
  obtain ⟨cs, blocks, hbuilt, hcov, hblocks⟩ := addEntries_built trimSpace parsePrefix parseAddr
    spec spec.entries {} [] ⟨.nil 0, rfl, zero_le _⟩
  change Built (rangesOf trimSpace parsePrefix parseAddr spec) cs at hbuilt
  change blocksOf (rangesOf trimSpace parsePrefix parseAddr spec).ranges cs = blocks.flatten at hblocks
  have hplain : ∀ g, (newTargets trimSpace parsePrefix parseAddr { spec with shuffle := false }).atPosition g =
      (rangeBefore (rangesOf trimSpace parsePrefix parseAddr spec).ranges g).map fun r => r.target (g - r.start) := by
    intro g
    rw [newTargets_eq]
    simp only [atPosition, rangeOf, Bool.false_eq_true, if_false,
      search_eq_findIdx _ hbuilt.chained.sorted]
    rfl
  refine ⟨blocks, ?_, hcov⟩
  have hlist := hbuilt.chained.list
  rw [hblocks, hbuilt.sum, ← range_eq_range'] at hlist
  rw [← hlist]
  show (range (newTargets _ _ _ _).total).map _ = _
  rw [newTargets_total]
  exact map_congr_left fun g _ => hplain g

theorem newTargets_target (hplain : spec.shuffle = false) {position : Nat} {t : Target}
    (hp : position < (newTargets trimSpace parsePrefix parseAddr spec).total)
    (ht : (newTargets trimSpace parsePrefix parseAddr spec).atPosition position = some t) :
    ∃ entry ∈ spec.entries, ∃ p ports, validEntry trimSpace parsePrefix parseAddr spec entry = some (p, ports) ∧
      p.Contains t.addr ∧ t.port ∈ ports := by
  obtain ⟨blocks, hblocks, hcov⟩ := newTargets_plain trimSpace parsePrefix parseAddr spec
  have hspec : { spec with shuffle := false } = spec := by
    cases spec
    subst hplain
    rfl
  rw [hspec] at hblocks
  have hmem : some t ∈ (newTargets trimSpace parsePrefix parseAddr spec).targets :=
    List.mem_map.mpr ⟨position, List.mem_range.mpr hp, ht⟩
  rw [hblocks, List.mem_map] at hmem
  obtain ⟨t', ht', heq⟩ := hmem
  rw [Option.some.inj heq, List.mem_flatten] at ht'
  obtain ⟨block, hblock, htb⟩ := ht'
  obtain ⟨e, he, start, hok⟩ := hcov.block hblock
  obtain ⟨entry, hentry, hvalid⟩ := List.mem_filterMap.mp he
  exact ⟨entry, hentry, e.1, e.2, hvalid, hok.inside t htb⟩

theorem newTargets_permutes :
    PermutesBelow (rangesOf trimSpace parsePrefix parseAddr spec).total
      (newTargets trimSpace parsePrefix parseAddr { spec with shuffle := true }).permute := by
  obtain ⟨cs, blocks, hbuilt, -, -⟩ := addEntries_built trimSpace parsePrefix parseAddr
    spec spec.entries {} [] ⟨.nil 0, rfl, zero_le _⟩
  rw [← newTargets_total trimSpace parsePrefix parseAddr spec true]
  refine permutes_permute _ spec.seed.toNat (by rw [newTargets_total]; exact hbuilt.cap) ?_
  rw [newTargets_eq]
  intro h1
  exact if_pos h1

theorem newTargets_shuffled (x : Nat) :
    (newTargets trimSpace parsePrefix parseAddr { spec with shuffle := true }).atPosition x =
      (newTargets trimSpace parsePrefix parseAddr { spec with shuffle := false }).atPosition
        ((newTargets trimSpace parsePrefix parseAddr { spec with shuffle := true }).permute x) := by
  rw [newTargets_eq, newTargets_eq]
  rfl

theorem newTargets_atPosition (position : Nat)
    (h : position < (newTargets trimSpace parsePrefix parseAddr spec).total) :
    ((newTargets trimSpace parsePrefix parseAddr spec).atPosition position).isSome = true := by
  obtain ⟨blocks, hblocks, -⟩ := newTargets_plain trimSpace parsePrefix parseAddr spec
  have hplain : ∀ g, g < (rangesOf trimSpace parsePrefix parseAddr spec).total →
      ((newTargets trimSpace parsePrefix parseAddr { spec with shuffle := false }).atPosition g).isSome = true := by
    intro g hg
    have hmem : (newTargets trimSpace parsePrefix parseAddr { spec with shuffle := false }).atPosition g ∈
        (newTargets trimSpace parsePrefix parseAddr { spec with shuffle := false }).targets := by
      rw [targets, newTargets_total]
      exact mem_map.mpr ⟨g, mem_range.mpr hg, rfl⟩
    rw [hblocks] at hmem
    obtain ⟨target, -, heq⟩ := mem_map.mp hmem
    rw [← heq]
    rfl
  obtain ⟨entries, defaultPorts, portMode, maxHostsPerEntry, shuffle, seed⟩ := spec
  cases shuffle with
  | false => exact hplain position (by rwa [← newTargets_total _ _ _ _ false])
  | true =>
    have hlt : position < (rangesOf trimSpace parsePrefix parseAddr
        ⟨entries, defaultPorts, portMode, maxHostsPerEntry, true, seed⟩).total := by
      rwa [← newTargets_total _ _ _ _ true]
    rw [newTargets_shuffled trimSpace parsePrefix parseAddr ⟨entries, defaultPorts, portMode,
      maxHostsPerEntry, true, seed⟩]
    exact hplain _ ((newTargets_permutes trimSpace parsePrefix parseAddr _).maps position hlt)

/-- **The targets of a spec.**  Unshuffled they are one block per valid entry, in
turn; shuffled they are the same targets in another order. -/
theorem newTargets_list (spec : Spec) :
    ∃ blocks,
      (newTargets trimSpace parsePrefix parseAddr { spec with shuffle := false }).targets =
        blocks.flatten.map some ∧
      Covers spec.limit 0 (spec.entries.filterMap (validEntry trimSpace parsePrefix parseAddr spec)) blocks ∧
      (newTargets trimSpace parsePrefix parseAddr { spec with shuffle := true }).targets.Perm
        (newTargets trimSpace parsePrefix parseAddr { spec with shuffle := false }).targets := by
  obtain ⟨blocks, hblocks, hcov⟩ := newTargets_plain trimSpace parsePrefix parseAddr spec
  refine ⟨blocks, hblocks, hcov, ?_⟩
  show ((range (newTargets _ _ _ _).total).map _).Perm ((range (newTargets _ _ _ _).total).map _)
  rw [newTargets_total, newTargets_total,
    map_congr_left fun x _ => newTargets_shuffled trimSpace parsePrefix parseAddr spec x]
  exact perm_map_range (newTargets_permutes trimSpace parsePrefix parseAddr spec) _

end

end Waterdisco.Scan

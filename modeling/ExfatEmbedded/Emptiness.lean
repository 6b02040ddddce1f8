import ExfatEmbedded.Decoding
import ExfatEmbedded.Grammar
import ExfatEmbedded.Removal
import Mathlib.Data.List.TakeWhile

/-!
When a directory is taken for empty: the slots of its view hold no set which is shown.

`Unshown` says which sequences of slots these are; it speaks of the slots alone. They are not only
the sequences without a primary entry: the decoder passes over sets with a secondary out of place.
-/

namespace ExfatEmbedded.Emptiness

open ExfatEmbedded.Library Exec ExfatEmbedded.Core ExfatEmbedded.Entry ExfatEmbedded.Lookup
open ExfatEmbedded.Mutation ExfatEmbedded.Mount ExfatEmbedded.Reading ExfatEmbedded.MountSafety
open ExfatEmbedded.ReadSafety ExfatEmbedded.Scan ExfatEmbedded.Listing ExfatEmbedded.Sets
open ExfatEmbedded.Grammar ExfatEmbedded.Decoding ExfatEmbedded.Tree ExfatEmbedded.Removal
open ExfatEmbedded.EntryWrite

/-! ### Sets which are not shown -/

/-- The set of `prim` is passed over when these are its secondaries: it has more than eighteen, or
one of them is out of place. -/
def Hidden (prim : Slot) (secs : List Slot) : Prop :=
  18 < byteAt prim.raw 1 ∨ ∃ stream names, secs = stream :: names ∧
    (byteAt stream.raw 0 ≠ 0xc0 ∨ ¬ EntrySet.StreamBad stream.raw ∧
      ∃ i x, names[i]? = some x ∧ (byteAt x.raw 0 ≠ 0xc1 ∨ byteAt stream.raw 3 ≤ 15 * i))

/-- The set of `prim` is rejected for its stream extension. -/
def Rejected (prim : Slot) (secs : List Slot) : Prop :=
  byteAt prim.raw 1 ≤ 18 ∧ ∃ stream names, secs = stream :: names ∧
    byteAt stream.raw 0 = 0xc0 ∧ EntrySet.StreamBad stream.raw

/-- Slots in use which show no entry and no error: between sets anything but a primary entry, sets
which are passed over, and at the end a set which is cut off. -/
inductive Unshown : List Slot → Prop
  | nil : Unshown []
  | stray {x : Slot} {xs : List Slot} (hx : byteAt x.raw 0 ≠ 0x85) (h : Unshown xs) :
      Unshown (x :: xs)
  | set {prim : Slot} {secs rest : List Slot} (hprim : byteAt prim.raw 0 = 0x85)
      (hcount : 2 ≤ byteAt prim.raw 1) (hlen : secs.length = byteAt prim.raw 1)
      (hsecs : ∀ x ∈ secs, byteAt x.raw 0 ≠ 0x85) (hhidden : Hidden prim secs) (h : Unshown rest) :
      Unshown (prim :: (secs ++ rest))
  | cut {prim : Slot} {secs : List Slot} (hprim : byteAt prim.raw 0 = 0x85)
      (hcount : 2 ≤ byteAt prim.raw 1) (hlen : secs.length < byteAt prim.raw 1)
      (hsecs : ∀ x ∈ secs, byteAt x.raw 0 ≠ 0x85) (hkept : ¬ Rejected prim secs) :
      Unshown (prim :: secs)

variable {prim x y : Slot} {secs xs ys : List Slot} {s t : EntrySet} {k : ℕ}

lemma Hidden.append (h : Hidden prim secs) (ys : List Slot) : Hidden prim (secs ++ ys) := by
  obtain hmany | ⟨stream, names, rfl, h⟩ := h
  · exact .inl hmany
  · refine .inr ⟨stream, names ++ ys, rfl, h.imp_right fun ⟨hok, i, x, hx, hbad⟩ =>
      ⟨hok, i, x, ?_, hbad⟩⟩
    rw [List.getElem?_append_left (List.getElem?_eq_some_iff.mp hx).1]
    exact hx

lemma Rejected.append (h : Rejected prim secs) (ys : List Slot) : Rejected prim (secs ++ ys) := by
  obtain ⟨hfew, stream, names, rfl, h⟩ := h
  exact ⟨hfew, stream, names ++ ys, rfl, h⟩

lemma Rejected.of_append (h : Rejected prim (secs ++ ys)) (hne : secs ≠ []) :
    Rejected prim secs := by
  obtain ⟨hfew, stream, names, heq, h⟩ := h
  obtain ⟨z, zs, rfl⟩ := List.exists_cons_of_ne_nil hne
  obtain ⟨rfl, -⟩ := List.cons.inj heq
  exact ⟨hfew, z, zs, rfl, h⟩

lemma Rejected.not_hidden (h : Rejected prim secs) : ¬ Hidden prim secs := by
  obtain ⟨hfew, stream, names, rfl, htype, hbad⟩ := h
  rintro (hmany | ⟨_, _, heq, h⟩)
  · omega
  · obtain ⟨rfl, rfl⟩ := List.cons.inj heq
    exact h.elim (fun hne => hne htype) fun hok => hok.1 hbad

/-! ### The decoder inside a set -/

/-- The decoder behind `prim` and the secondaries `secs`, which it has gone over in silence. -/
inductive Phase (prim : Slot) (s : EntrySet) : List Slot → Prop
  | hidden {secs : List Slot} (h : Hidden prim secs) (hignored : s.ignored = true) :
  Phase prim s secs
  | fresh (hfew : byteAt prim.raw 1 ≤ 18) (hignored : s.ignored = false)
      (hseen : s.streamSeen = false) (hwritten : s.nameWritten = 0)
      (hcount : s.entry.entryCount = 1) : Phase prim s []
  | named {stream : Slot} {names : List Slot} (hfew : byteAt prim.raw 1 ≤ 18)
      (htype : byteAt stream.raw 0 = 0xc0) (hok : ¬ EntrySet.StreamBad stream.raw)
      (hnames : ∀ i z, names[i]? = some z → byteAt z.raw 0 = 0xc1 ∧ 15 * i < byteAt stream.raw 3)
      (hignored : s.ignored = false) (hseen : s.streamSeen = true)
      (hlen : s.entry.nameLen = byteAt stream.raw 3)
      (hwritten : s.nameWritten = min 255 (15 * names.length))
      (hcount : s.entry.entryCount = names.length + 2) : Phase prim s (stream :: names)

lemma phase_start (prim : Slot) : Phase prim (EntrySet.start prim.raw prim.loc) [] := by
  rcases Nat.lt_or_ge 18 (byteAt prim.raw 1) with hmany | hfew
  · exact .hidden (.inl hmany) (decide_eq_true hmany)
  · exact .fresh hfew (decide_eq_false (Nat.not_lt.mpr hfew)) rfl rfl rfl

lemma consume_more (h : s.secondaryLeft = k + 1) (hk : 0 < k) :
    s.consume = (.ok none, { s with secondaryLeft := k }) := by
  unfold EntrySet.consume
  simp only [h, Nat.add_sub_cancel]
  rw [if_neg (by omega)]

lemma consume_last (h : s.secondaryLeft = 1) :
    s.consume.1 = .err .corrupt ∨ s.consume.1 = .ok (some s.entry) := by
  unfold EntrySet.consume EntrySet.complete
  simp only [h, Nat.sub_self, if_true]
  split_ifs
  · exact .inl rfl
  · exact .inr rfl

lemma hidden_snoc {stream : Slot} {names : List Slot} (hfew : byteAt prim.raw 1 ≤ 18)
    (htype : byteAt stream.raw 0 = 0xc0) (hok : ¬ EntrySet.StreamBad stream.raw)
    (hnames : ∀ i z, names[i]? = some z → byteAt z.raw 0 = 0xc1 ∧ 15 * i < byteAt stream.raw 3) :
    Hidden prim (stream :: names ++ [y]) ↔
      byteAt y.raw 0 ≠ 0xc1 ∨ byteAt stream.raw 3 ≤ 15 * names.length := by
  constructor
  · rintro (hmany | ⟨stream', names', heq, h⟩)
    · omega
    · obtain ⟨rfl, rfl⟩ := List.cons.inj heq
      obtain ⟨-, i, x, hx, hbad⟩ := h.resolve_left fun hne => hne htype
      have hx : (names ++ [y])[i]? = some x := hx
      rcases Nat.lt_or_ge i names.length with hi | hi
      · rw [List.getElem?_append_left hi] at hx
        have := hnames i x hx
        omega
      · have hlt := (List.getElem?_eq_some_iff.mp hx).1
        rw [List.length_append, List.length_singleton] at hlt
        obtain rfl : i = names.length := by omega
        rw [List.getElem?_concat_length, Option.some.injEq] at hx
        exact hx ▸ hbad
  · intro hbad
    exact .inr ⟨stream, names ++ [y], rfl, .inr ⟨hok, names.length, y, by simp, hbad⟩⟩

lemma nameLen_byte (raw : List UInt8) : byteAt raw 3 ≤ 255 := by
  have := (raw.getD 3 0).toNat_lt
  unfold byteAt
  omega

lemma push_passed (hphase : Phase prim s secs) (hhidden : Hidden prim (secs ++ [y]))
    (hleft : s.secondaryLeft = k + 1) (hlen : y.raw.length = 32) (hy : byteAt y.raw 0 ≠ 0x85) :
    ∃ t, EntrySet.push y.raw y.loc s = (.ok none, t) ∧ t.secondaryLeft = k ∧
      (0 < k → t.ignored = true) := by
  have hz : s.secondaryLeft ≠ 0 := by omega
  unfold EntrySet.push
  rw [if_neg (not_not.mpr hlen), if_neg hy, if_neg hz]
  cases hphase with
  | hidden h hignored =>
    rw [if_pos hignored]
    exact ⟨_, rfl, by simp [hleft], fun hk => by simp [hleft, hk.ne']⟩
  | fresh hfew hignored hseen hwritten hcount =>
    have htype : byteAt y.raw 0 ≠ 0xc0 := by
      obtain hmany | ⟨_, _, heq, h⟩ := hhidden
      · omega
      · obtain ⟨rfl, rfl⟩ := List.cons.inj heq
        rcases h with hne | ⟨-, i, x, hx, -⟩
        · exact hne
        · simp at hx
    rw [if_neg (by simp [hignored]), if_neg (by simp [htype]), if_neg (by simp [hseen])]
    exact ⟨_, rfl, by simp [hleft], fun _ => rfl⟩
  | @named stream names hfew htype hok hnames hignored hseen hname hwritten hcount =>
    have hbyte := nameLen_byte stream.raw
    have hout := (hidden_snoc hfew htype hok hnames).mp hhidden
    rw [if_neg (by simp [hignored]), if_neg (by simp [hseen]), if_neg ?_]
    · exact ⟨_, rfl, by simp [hleft], fun _ => rfl⟩
    · rintro ⟨hc1, -, hlt⟩
      omega

/-- What is in its place is taken over; the last one of a set shows an entry or an error. -/
lemma push_taken (hphase : Phase prim s secs) (hhidden : ¬ Hidden prim (secs ++ [y]))
    (hrejected : ¬ Rejected prim (secs ++ [y])) (hleft : s.secondaryLeft = k + 1)
    (hsum : secs.length + (k + 1) = byteAt prim.raw 1) (hlen : y.raw.length = 32)
    (hy : byteAt y.raw 0 ≠ 0x85) :
    ∃ u : EntrySet, EntrySet.push y.raw y.loc s = u.consume ∧ u.secondaryLeft = k + 1 ∧
      ∀ l, Phase prim { u with secondaryLeft := l } (secs ++ [y]) := by
  have hz : s.secondaryLeft ≠ 0 := by omega
  unfold EntrySet.push
  rw [if_neg (not_not.mpr hlen), if_neg hy, if_neg hz]
  cases hphase with
  | hidden h hignored => exact absurd (h.append [y]) hhidden
  | fresh hfew hignored hseen hwritten hcount =>
    have htype : byteAt y.raw 0 = 0xc0 := by
      by_contra hne
      exact hhidden (.inr ⟨y, [], rfl, .inl hne⟩)
    have hok : ¬ EntrySet.StreamBad y.raw := fun hbad => hrejected ⟨hfew, y, [], rfl, htype, hbad⟩
    rw [if_neg (by simp [hignored]), if_pos ⟨htype, by simp [hseen], hcount⟩, if_neg hok]
    exact ⟨_, rfl, hleft, fun l => .named hfew htype hok nofun hignored rfl rfl
      (by simp [EntrySet.takeStream, hwritten]) (by simp [EntrySet.takeStream, EntrySet.record,
      hcount])⟩
  | @named stream names hfew htype hok hnames hignored hseen hname hwritten hcount =>
    have hin := (hidden_snoc hfew htype hok hnames).not.mp hhidden
    have hbyte := nameLen_byte stream.raw
    rw [List.length_cons] at hsum
    rw [if_neg (by simp [hignored]), if_neg (by simp [hseen]),
      if_pos ⟨by omega, hseen, by omega⟩, if_neg (by omega)]
    refine ⟨_, rfl, hleft, fun l => ?_⟩
    rw [List.cons_append]
    refine .named hfew htype hok ?_ hignored hseen hname ?_ ?_
    · intro i z hz
      rcases Nat.lt_or_ge i names.length with hi | hi
      · rw [List.getElem?_append_left hi] at hz
        exact hnames i z hz
      · have hlt := (List.getElem?_eq_some_iff.mp hz).1
        rw [List.length_append, List.length_singleton] at hlt
        obtain rfl : i = names.length := by omega
        rw [List.getElem?_concat_length, Option.some.injEq] at hz
        subst hz
        omega
    · simp only [EntrySet.takeName, List.length_append, List.length_singleton, hwritten]
      omega
    · simp only [EntrySet.takeName, EntrySet.record, List.length_append,
        List.length_singleton, hcount]

lemma push_rejected (hphase : Phase prim s secs) (hrejected : Rejected prim (secs ++ [y]))
    (hleft : s.secondaryLeft = k + 1) (hlen : y.raw.length = 32) (hy : byteAt y.raw 0 ≠ 0x85) :
    ∃ t, EntrySet.push y.raw y.loc s = (.err .corrupt, t) := by
  have hz : s.secondaryLeft ≠ 0 := by omega
  unfold EntrySet.push
  rw [if_neg (not_not.mpr hlen), if_neg hy, if_neg hz]
  cases hphase with
  | hidden h hignored => exact absurd (h.append [y]) hrejected.not_hidden
  | fresh hfew hignored hseen hwritten hcount =>
    obtain ⟨-, _, _, heq, htype, hbad⟩ := hrejected
    obtain ⟨rfl, rfl⟩ := List.cons.inj heq
    rw [if_neg (by simp [hignored]), if_pos ⟨htype, by simp [hseen], hcount⟩, if_pos hbad]
    exact ⟨_, rfl⟩
  | named hfew htype hok =>
    obtain ⟨-, _, _, heq, -, hbad⟩ := hrejected.of_append (List.cons_ne_nil _ _)
    obtain ⟨rfl, rfl⟩ := List.cons.inj heq
    exact absurd hbad hok

/-! ### Scans which show nothing -/

/-- The visitor which keeps the first entry. -/
def keepFirst (e : DirectoryEntry) (_ : Option DirectoryEntry) : Bool × Option DirectoryEntry :=
  (false, some e)

/-- The scan goes over the slots without an entry or an error. -/
def Silent (s : EntrySet) (xs : List Slot) (t : EntrySet) : Prop :=
  sweep keepFirst xs (.going s none) = .going t none

/-- The slots are in use. -/
def InUse (xs : List Slot) : Prop := ∀ x ∈ xs, x.raw.length = 32 ∧ byteAt x.raw 0 ≠ 0

lemma silent_nil : Silent s [] t ↔ s = t := by simp [Silent]

lemma silent_cons (hx : byteAt x.raw 0 ≠ 0) : Silent s (x :: xs) t ↔
    ∃ u, EntrySet.push x.raw x.loc s = (.ok none, u) ∧ Silent u xs t := by
  unfold Silent
  change sweep keepFirst xs (Progress.step keepFirst (.going s none) x) = _ ↔ _
  unfold Progress.step
  simp only
  rw [if_neg hx]
  rcases hp : EntrySet.push x.raw x.loc s with ⟨(_ | e) | _ | _, u⟩
  · simp
  · simp [keepFirst, sweep_stopped]
  · simp [sweep_failed]
  · simp [sweep_failed]

lemma going_some {e : DirectoryEntry} (ys : List Slot) :
    sweep keepFirst ys (.going s (some e)) ≠ .going t none := by
  induction ys generalizing s with
  | nil => simp
  | cons y ys ih =>
    change sweep keepFirst ys (Progress.step keepFirst (.going s (some e)) y) ≠ _
    unfold Progress.step
    simp only
    split_ifs
    · simp [sweep_stopped]
    · rcases EntrySet.push y.raw y.loc s with ⟨(_ | e') | _ | _, u⟩
      · exact ih
      · simp [keepFirst, sweep_stopped]
      · simp [sweep_failed]
      · simp [sweep_failed]

lemma Silent.no_primary (h : Silent s xs t) (huse : InUse xs) (hle : xs.length ≤ s.secondaryLeft) :
    ∀ x ∈ xs, byteAt x.raw 0 ≠ 0x85 := by
  induction xs generalizing s with
  | nil => nofun
  | cons x xs ih =>
    obtain ⟨u, hpush, hrest⟩ := (silent_cons (huse x List.mem_cons_self).2).mp h
    have hleft := push_left hpush
    rw [List.length_cons] at hle
    have hx : byteAt x.raw 0 ≠ 0x85 := fun hprim => by
      rw [if_pos hprim] at hleft
      omega
    rw [if_neg hx] at hleft
    refine List.forall_mem_cons.mpr
      ⟨hx, ih hrest (fun y hy => huse y (List.mem_cons_of_mem _ hy)) ?_⟩
    omega

lemma silent_append : Silent s (xs ++ ys) t ↔ ∃ u, Silent s xs u ∧ Silent u ys t := by
  unfold Silent
  rw [sweep_append]
  constructor
  · intro h
    rcases hs : sweep keepFirst xs (.going s none) with ⟨u, o⟩ | o | _
    · rw [hs] at h
      rcases o with _ | e
      · exact ⟨u, rfl, h⟩
      · exact absurd h (going_some ys)
    · rw [hs, sweep_stopped] at h
      cases h
    · rw [hs, sweep_failed] at h
      cases h
  · rintro ⟨u, hu, ht⟩
    rw [hu, ht]

lemma Silent.det {u : EntrySet} (h : Silent s xs t) (h' : Silent s xs u) : t = u := by
  have heq := h.symm.trans h'
  injection heq

lemma silent_cut (hphase : Phase prim s secs) (hkept : ¬ Rejected prim secs)
    (hsum : secs.length + s.secondaryLeft = byteAt prim.raw 1) (hlt : xs.length < s.secondaryLeft)
    (huse : InUse xs) (hxs : ∀ x ∈ xs, byteAt x.raw 0 ≠ 0x85) :
    (Rejected prim (secs ++ xs) ∧ ∀ t, ¬ Silent s xs t) ∨
      ¬ Rejected prim (secs ++ xs) ∧ ∃ t, Silent s xs t ∧
        xs.length + t.secondaryLeft = s.secondaryLeft ∧ Phase prim t (secs ++ xs) := by
  induction xs generalizing s secs with
  | nil =>
    rw [List.append_nil]
    exact .inr ⟨hkept, s, silent_nil.mpr rfl, by simp, hphase⟩
  | cons x xs ih =>
    rw [List.length_cons] at hlt
    obtain ⟨k, hk⟩ : ∃ k, s.secondaryLeft = k + 1 := ⟨s.secondaryLeft - 1, by omega⟩
    obtain ⟨hlen, hne⟩ := huse x List.mem_cons_self
    have hx := hxs x List.mem_cons_self
    rw [show secs ++ x :: xs = (secs ++ [x]) ++ xs by simp]
    by_cases hrejected : Rejected prim (secs ++ [x])
    · obtain ⟨u, hpush⟩ := push_rejected hphase hrejected hk hlen hx
      refine .inl ⟨hrejected.append xs, fun t ht => ?_⟩
      obtain ⟨v, hpush', -⟩ := (silent_cons hne).mp ht
      cases hpush.symm.trans hpush'
    obtain ⟨u, hpush, hleft, hphase'⟩ : ∃ u, EntrySet.push x.raw x.loc s = (.ok none, u) ∧
        u.secondaryLeft = k ∧ Phase prim u (secs ++ [x]) := by
      by_cases hhidden : Hidden prim (secs ++ [x])
      · obtain ⟨u, hpush, hleft, hignored⟩ := push_passed hphase hhidden hk hlen hx
        exact ⟨u, hpush, hleft, .hidden hhidden (hignored (by omega))⟩
      · obtain ⟨u, hpush, hleft, hphase'⟩ :=
          push_taken hphase hhidden hrejected hk (hk ▸ hsum) hlen hx
        exact ⟨_, hpush.trans (consume_more hleft (by omega)), rfl, hphase' k⟩
    have hstep (t : EntrySet) : Silent s (x :: xs) t ↔ Silent u xs t := by
      rw [silent_cons hne, hpush]
      simp
    simp only [hstep, List.length_cons]
    refine (ih hphase' hrejected (by rw [List.length_append, List.length_singleton]; omega)
      (by omega)
      (fun y hy => huse y (List.mem_cons_of_mem _ hy))
      fun y hy => hxs y (List.mem_cons_of_mem _ hy)).imp_right fun h => h.imp_right ?_
    rintro ⟨t, ht, hlen', hphase''⟩
    exact ⟨t, ht, by omega, hphase''⟩

lemma silent_whole (hphase : Phase prim s secs) (hkept : ¬ Rejected prim secs)
    (hsum : secs.length + s.secondaryLeft = byteAt prim.raw 1) (hlen : xs.length = s.secondaryLeft)
    (hne : xs ≠ []) (huse : InUse xs) (hxs : ∀ x ∈ xs, byteAt x.raw 0 ≠ 0x85) :
    (Hidden prim (secs ++ xs) ∧ ∃ t, Silent s xs t ∧ t.secondaryLeft = 0) ∨
      ¬ Hidden prim (secs ++ xs) ∧ ∀ t, ¬ Silent s xs t := by
  obtain ⟨init, y, rfl⟩ : ∃ init y, xs = init ++ [y] :=
    ⟨xs.dropLast, xs.getLast hne, (List.dropLast_append_getLast hne).symm⟩
  rw [List.length_append, List.length_singleton] at hlen
  obtain ⟨hylen, hyne⟩ := huse y (by simp)
  have hy := hxs y (by simp)
  rw [← List.append_assoc]
  rcases silent_cut hphase hkept hsum (show init.length < s.secondaryLeft by omega)
    (fun x hx => huse x (List.mem_append_left _ hx))
    fun x hx => hxs x (List.mem_append_left _ hx) with ⟨hrejected, hno⟩ | ⟨hkept', u, hu,
      hleft, hphase'⟩
  · refine .inr ⟨(hrejected.append [y]).not_hidden, fun t ht => ?_⟩
    obtain ⟨v, hv, -⟩ := silent_append.mp ht
    exact hno v hv
  have hone : u.secondaryLeft = 0 + 1 := by omega
  have hstep (t : EntrySet) : Silent s (init ++ [y]) t ↔
      EntrySet.push y.raw y.loc u = (.ok none, t) := by
    rw [silent_append]
    constructor
    · rintro ⟨v, hv, ht⟩
      obtain rfl := hu.det hv
      obtain ⟨w, hpush, hw⟩ := (silent_cons hyne).mp ht
      rw [hpush, silent_nil.mp hw]
    · intro hpush
      exact ⟨u, hu, (silent_cons hyne).mpr ⟨t, hpush, silent_nil.mpr rfl⟩⟩
  by_cases hhidden : Hidden prim (secs ++ init ++ [y])
  · obtain ⟨t, hpush, hleft', -⟩ := push_passed hphase' hhidden hone hylen hy
    exact .inl ⟨hhidden, t, (hstep t).mpr hpush, hleft'⟩
  · refine .inr ⟨hhidden, fun t ht => ?_⟩
    have ht := (hstep t).mp ht
    by_cases hrejected : Rejected prim (secs ++ init ++ [y])
    · obtain ⟨v, hpush⟩ := push_rejected hphase' hrejected hone hylen hy
      cases hpush.symm.trans ht
    · obtain ⟨v, hpush, hleft', -⟩ := push_taken hphase' hhidden hrejected hone
        (by rw [List.length_append]; omega) hylen hy
      rcases consume_last hleft' with hc | hc <;> rw [← hpush, ht] at hc <;> cases hc

lemma push_between (hidle : s.secondaryLeft = 0) (hlen : x.raw.length = 32)
    (hx : byteAt x.raw 0 ≠ 0x85) : EntrySet.push x.raw x.loc s = (.ok none, s) := by
  unfold EntrySet.push
  rw [if_neg (not_not.mpr hlen), if_neg hx, if_pos hidle]

lemma push_begins (hidle : s.secondaryLeft = 0) (hlen : x.raw.length = 32)
    (hx : byteAt x.raw 0 = 0x85) : EntrySet.push x.raw x.loc s =
      if byteAt x.raw 1 < 2 then (.err .corrupt, s)
      else (.ok none, EntrySet.start x.raw x.loc) := by
  unfold EntrySet.push
  rw [if_neg (not_not.mpr hlen), if_pos hx]
  simp [hidle]

lemma not_rejected_nil : ¬ Rejected prim [] := by
  rintro ⟨-, _, _, heq, -⟩
  cases heq

lemma unshown_stray (hx : byteAt x.raw 0 ≠ 0x85) : Unshown (x :: xs) ↔ Unshown xs := by
  constructor
  · intro h
    cases h with
    | stray _ h => exact h
    | set hprim => exact absurd hprim hx
    | cut hprim => exact absurd hprim hx
  · exact .stray hx

lemma not_unshown (hx : byteAt x.raw 0 = 0x85) (hcount : byteAt x.raw 1 < 2) :
    ¬ Unshown (x :: xs) := by
  intro h
  cases h with
  | stray hx' => exact absurd hx hx'
  | set _ hcount' => omega
  | cut _ hcount' => omega

section Begun

variable (hx : byteAt x.raw 0 = 0x85) (hcount : 2 ≤ byteAt x.raw 1)

include hx hcount

lemma silent_cut_iff (huse : InUse xs) (hshort : xs.length < byteAt x.raw 1) :
    (∃ t, Silent (EntrySet.start x.raw x.loc) xs t) ↔ Unshown (x :: xs) := by
  have hsum : ([] : List Slot).length + (EntrySet.start x.raw x.loc).secondaryLeft =
      byteAt x.raw 1 := Nat.zero_add _
  constructor
  · rintro ⟨t, ht⟩
    have hsecs := ht.no_primary huse hshort.le
    refine .cut hx hcount hshort hsecs ?_
    rcases silent_cut (phase_start x) not_rejected_nil hsum hshort huse hsecs with
      ⟨-, hno⟩ | ⟨hkept, -⟩
    · exact absurd ht (hno t)
    · exact hkept
  · intro h
    cases h with
    | stray hx' => exact absurd hx hx'
    | set _ _ hlen =>
      rw [List.length_append] at hshort
      omega
    | cut _ _ _ hsecs hkept =>
      rcases silent_cut (phase_start x) not_rejected_nil hsum hshort huse hsecs with
        ⟨hrejected, -⟩ | ⟨-, t, ht, -⟩
      · exact absurd hrejected hkept
      · exact ⟨t, ht⟩

lemma unshown_set {secs rest : List Slot} (hlen : secs.length = byteAt x.raw 1) :
    Unshown (x :: (secs ++ rest)) ↔
      (∀ y ∈ secs, byteAt y.raw 0 ≠ 0x85) ∧ Hidden x secs ∧ Unshown rest := by
  constructor
  · intro h
    generalize hlist : x :: (secs ++ rest) = l at h
    cases h with
    | nil => cases hlist
    | stray hx' =>
      obtain ⟨rfl, -⟩ := List.cons.inj hlist
      exact absurd hx hx'
    | set _ _ hlen' hsecs hhidden h =>
      obtain ⟨rfl, hxs⟩ := List.cons.inj hlist
      obtain ⟨rfl, rfl⟩ := List.append_inj hxs (hlen.trans hlen'.symm)
      exact ⟨hsecs, hhidden, h⟩
    | cut _ _ hlen' =>
      obtain ⟨rfl, rfl⟩ := List.cons.inj hlist
      rw [List.length_append] at hlen'
      omega
  · rintro ⟨hsecs, hhidden, h⟩
    exact .set hx hcount hlen hsecs hhidden h

lemma silent_set_iff {secs rest : List Slot} (huse : InUse (secs ++ rest))
    (hlen : secs.length = byteAt x.raw 1)
    (hrest : ∀ u : EntrySet, u.secondaryLeft = 0 → ((∃ t, Silent u rest t) ↔ Unshown rest)) :
    (∃ t, Silent (EntrySet.start x.raw x.loc) (secs ++ rest) t) ↔
      Unshown (x :: (secs ++ rest)) := by
  have husecs : InUse secs := fun y hy => huse y (List.mem_append_left _ hy)
  have hwhole (hsecs : ∀ y ∈ secs, byteAt y.raw 0 ≠ 0x85) :=
    silent_whole (phase_start x) not_rejected_nil (show 0 + byteAt x.raw 1 = _ from Nat.zero_add _)
      hlen (List.ne_nil_of_length_pos (by omega)) husecs hsecs
  rw [unshown_set hx hcount hlen]
  simp only [silent_append]
  constructor
  · rintro ⟨t, u, hu, ht⟩
    have hsecs := hu.no_primary husecs hlen.le
    rcases hwhole hsecs with ⟨hhidden, v, hv, hidle⟩ | ⟨-, hno⟩
    · exact ⟨hsecs, hhidden, (hrest u (hu.det hv ▸ hidle)).mp ⟨t, ht⟩⟩
    · exact absurd hu (hno u)
  · rintro ⟨hsecs, hhidden, h⟩
    rcases hwhole hsecs with ⟨-, u, hu, hidle⟩ | ⟨hno, -⟩
    · obtain ⟨t, ht⟩ := (hrest u hidle).mpr h
      exact ⟨t, u, hu, ht⟩
    · exact absurd hhidden hno

end Begun

/-- **A scan from between sets is silent exactly over slots which show nothing.** -/
theorem silent_iff (hidle : s.secondaryLeft = 0) (huse : InUse xs) :
    (∃ t, Silent s xs t) ↔ Unshown xs := by
  induction hn : xs.length using Nat.strong_induction_on generalizing xs s with
  | _ n ih =>
  rcases xs with _ | ⟨x, xs⟩
  · exact ⟨fun _ => .nil, fun _ => ⟨s, silent_nil.mpr rfl⟩⟩
  obtain ⟨hlen, hne⟩ := huse x List.mem_cons_self
  have huse' : InUse xs := fun y hy => huse y (List.mem_cons_of_mem _ hy)
  rw [List.length_cons] at hn
  by_cases hx : byteAt x.raw 0 = 0x85
  swap
  · have hstep (t : EntrySet) : Silent s (x :: xs) t ↔ Silent s xs t := by
      rw [silent_cons hne, push_between hidle hlen hx]
      simp
    simp only [hstep, ih xs.length (by omega) hidle huse' rfl, unshown_stray hx]
  have hpush := push_begins hidle hlen hx
  by_cases hcount : byteAt x.raw 1 < 2
  · rw [if_pos hcount] at hpush
    refine iff_of_false ?_ (not_unshown hx hcount)
    rintro ⟨t, ht⟩
    obtain ⟨u, hu, -⟩ := (silent_cons hne).mp ht
    cases hpush.symm.trans hu
  rw [if_neg hcount] at hpush
  have hstep (t : EntrySet) : Silent s (x :: xs) t ↔ Silent (EntrySet.start x.raw x.loc) xs t := by
    rw [silent_cons hne, hpush]
    simp
  simp only [hstep]
  rcases Nat.lt_or_ge xs.length (byteAt x.raw 1) with hshort | hlong
  · exact silent_cut_iff hx (by omega) huse' hshort
  · rw [← List.take_append_drop (byteAt x.raw 1) xs] at huse' ⊢
    refine silent_set_iff hx (by omega) huse' (List.length_take_of_le hlong) fun u hu => ?_
    refine ih (xs.drop (byteAt x.raw 1)).length ?_ hu
      (fun y hy => huse' y (List.mem_append_right _ hy)) rfl
    rw [List.length_drop]
    omega

/-! ### The view of a directory -/

/-- The slots before the end marker in the first `n` clusters of a directory. -/
def view (g : Geometry) (d : Sectors) (dir : Directory) (n : ℕ) : List Slot :=
  (extentSlots g d dir n).takeWhile fun x => byteAt x.raw 0 ≠ 0

/-- The directory ends in its first `n` clusters, by an end marker or with its extent. -/
structure Closes (g : Geometry) (d : Sectors) (dir : Directory) (n : ℕ) : Prop where
  visited : Visited g d dir n
  stops : (∃ x ∈ extentSlots g d dir n, byteAt x.raw 0 = 0) ∨ Ended g d dir n

/-- The slots of the view which lie within the data length of the directory. -/
def within (g : Geometry) (d : Sectors) (dir : Directory) (n : ℕ) : List Slot :=
  (view g d dir n).take (dir.dataLength / 32)

lemma takeWhile_append_of_stop {p : Slot → Bool} (h : ∃ x ∈ xs, p x = false) :
    (xs ++ ys).takeWhile p = xs.takeWhile p := by
  induction xs with
  | nil =>
    obtain ⟨x, hx, -⟩ := h
    cases hx
  | cons x xs ih =>
    rw [List.cons_append, List.takeWhile_cons, List.takeWhile_cons]
    split_ifs with hp
    · rw [ih]
      obtain ⟨z, hz, hzero⟩ := h
      rcases List.mem_cons.mp hz with rfl | hz
      · rw [hp] at hzero
        cases hzero
      · exact ⟨z, hz, hzero⟩
    · rfl

lemma Closes.unique {g : Geometry} {d : Sectors} {dir : Directory} {n m : ℕ}
    (h : Closes g d dir n) (h' : Closes g d dir m) : view g d dir n = view g d dir m := by
  wlog hle : n ≤ m generalizing n m
  · exact (this h' h (by omega)).symm
  rcases hle.eq_or_lt with rfl | hlt
  · rfl
  · rcases h.stops with ⟨x, hx, hzero⟩ | hend
    · obtain ⟨rest, hrest⟩ := extentSlots_mono g d dir hle
      unfold view
      rw [← hrest]
      exact (takeWhile_append_of_stop ⟨x, hx, by simp [hzero]⟩).symm
    · exact absurd hend (not_ended h'.visited.walked h.visited.pos (by omega))

lemma view_inUse (g : Geometry) (d : Sectors) (dir : Directory) (n : ℕ) :
    InUse (view g d dir n) := fun x hx =>
  ⟨extentSlots_length32 ((List.takeWhile_prefix _).subset hx), by
    simpa using List.mem_takeWhile_imp hx⟩

lemma sweep_stopped_none : sweep keepFirst xs (.going s none) = .stopped none ↔
    (∃ x ∈ xs, byteAt x.raw 0 = 0) ∧ ∃ t,
    Silent s (xs.takeWhile fun x => byteAt x.raw 0 ≠ 0) t := by
  induction xs generalizing s with
  | nil => simp
  | cons x xs ih =>
    by_cases hx : byteAt x.raw 0 = 0
    · have hstop : sweep keepFirst (x :: xs) (.going s none) = .stopped none := by
        change sweep keepFirst xs (Progress.step keepFirst (.going s none) x) = _
        unfold Progress.step
        simp only
        rw [if_pos hx, sweep_stopped]
      rw [List.takeWhile_cons_of_neg (by simp [hx])]
      exact ⟨fun _ => ⟨⟨x, by simp, hx⟩, s, silent_nil.mpr rfl⟩, fun _ => hstop⟩
    · rw [List.takeWhile_cons_of_pos (by simp [hx])]
      simp only [silent_cons hx, List.mem_cons, exists_eq_or_imp, hx, false_or]
      change sweep keepFirst xs (Progress.step keepFirst (.going s none) x) = _ ↔ _
      unfold Progress.step
      simp only
      rw [if_neg hx]
      rcases hp : EntrySet.push x.raw x.loc s with ⟨(_ | e) | _ | _, u⟩
      · simp only [ih]
        refine and_congr_right fun _ => ?_
        constructor
        · rintro ⟨t, ht⟩
          exact ⟨t, u, rfl, ht⟩
        · rintro ⟨t, _, heq, ht⟩
          cases heq
          exact ⟨t, ht⟩
      · simp [keepFirst, sweep_stopped]
      · simp [sweep_failed]
      · simp [sweep_failed]

lemma Silent.inUse (h : Silent s xs t) : ∀ x ∈ xs, byteAt x.raw 0 ≠ 0 := by
  induction xs generalizing s with
  | nil => nofun
  | cons x xs ih =>
    by_cases hx : byteAt x.raw 0 = 0
    · have hstop : sweep keepFirst (x :: xs) (.going s none) = .stopped none :=
        sweep_stopped_none.mpr ⟨⟨x, by simp, hx⟩, s, by
          rw [List.takeWhile_cons_of_neg (by simp [hx])]
          exact silent_nil.mpr rfl⟩
      cases hstop.symm.trans h
    · obtain ⟨u, -, hrest⟩ := (silent_cons hx).mp h
      exact List.forall_mem_cons.mpr ⟨hx, ih hrest⟩

section Read

variable {vol : Volume} {s0 : Machine} {dir : Directory} {n : ℕ}

lemma lists_none_iff : Lists vol s0 none keepFirst dir n none ↔
    Closes vol.geometry s0.device.sectors dir n ∧
      Unshown (view vol.geometry s0.device.sectors dir n) := by
  have hsilent := silent_iff (s := EntrySet.new) rfl
    (view_inUse vol.geometry s0.device.sectors dir n)
  rw [← hsilent]
  constructor
  · rintro ⟨hvisited, hstop | ⟨e, hgo, hend⟩⟩
    · obtain ⟨hzero, ht⟩ := sweep_stopped_none.mp hstop
      exact ⟨⟨hvisited, .inl hzero⟩, ht⟩
    · have hall := Silent.inUse hgo
      refine ⟨⟨hvisited, .inr hend⟩, e, ?_⟩
      rw [view, List.takeWhile_eq_self_iff.mpr (by simpa using hall)]
      exact hgo
  · rintro ⟨⟨hvisited, hstops⟩, t, ht⟩
    by_cases hzero : ∃ x ∈ extentSlots vol.geometry s0.device.sectors dir n, byteAt x.raw 0 = 0
    · exact ⟨hvisited, .inl (sweep_stopped_none.mpr ⟨hzero, t, ht⟩)⟩
    · refine ⟨hvisited, .inr ⟨t, ?_, hstops.resolve_left hzero⟩⟩
      rw [view, List.takeWhile_eq_self_iff.mpr (by push Not at hzero; simpa using hzero)] at ht
      exact ht

variable (hs : Ready vol.geometry s0) (hr : Healthy s0)

include hs hr

lemma firstDirectoryEntry_none : (firstDirectoryEntry vol dir s0).1 = .ok none ↔
    ∃ n, Closes vol.geometry s0.device.sectors dir n ∧
      Unshown (view vol.geometry s0.device.sectors dir n) := by
  have hfirst : (firstDirectoryEntry vol dir s0).1 = .ok none ↔
      ∃ t, readDirectory vol dir keepFirst (s0, none) = (.ok (), t) ∧ t.2 = none := by
    unfold firstDirectoryEntry
    rw [bind_apply, withSnd]
    change _ ↔ ∃ t, readDirectory vol dir (fun e _ => (false, some e)) (s0, none) = (.ok (), t) ∧ _
    rcases readDirectory vol dir (fun e _ => (false, some e)) (s0, none) with ⟨a | e | _, t⟩
    · change Outcome.ok t.2 = .ok none ↔ _
      simp
    · simp
    · simp
  simp only [hfirst, ← lists_none_iff]
  constructor
  · rintro ⟨t, hrun, hnone⟩
    obtain ⟨-, n, hvisited, hswept⟩ := (wp_ok hrun).mp (readDirectory_spec hs)
    rw [hnone] at hswept
    exact ⟨n, hvisited, hswept⟩
  · rintro ⟨n, hlists⟩
    obtain ⟨_, t, hrun, -, hnone⟩ := exists_of_wp (readDirectory_lists hs hr hlists)
    exact ⟨t, hrun, hnone⟩

end Read

/-! ### Reports -/

section Reports

variable {vol : Volume} {path : List Char} {e : DirectoryEntry} {dir : Directory} {s : Machine}

lemma lift_outcome {α : Type} (m : FsM α) (t : Machine × Workspace) :
    ((liftM m : WsM α) t).1 = (m t.1).1 := by
  change (onFst m t).1 = _
  rw [onFst]

/-- The directory is reported empty, or removed. -/
def TakenForEmpty (vol : Volume) (path : List Char) (s : Machine) : Prop :=
  (isDirEmpty vol path s).1 = .ok true ∨ (remove vol path s).1 = .ok ()

lemma takenForEmpty_iff (hdir : e.directory = some dir) {t : Machine × Workspace}
    (hlookup : lookupWithWorkspace vol (trimSlashes path) (s, Workspace.new) = (.ok e, t)) :
    TakenForEmpty vol path s ↔ (firstDirectoryEntry vol dir t.1).1 = .ok none := by
  have hempty : (isDirEmpty vol path s).1 = .ok true ↔
      (firstDirectoryEntry vol dir t.1).1 = .ok none := by
    unfold isDirEmpty isDirEmptyWithWorkspace
    rw [withNewWorkspace_outcome, bind_ok hlookup, hdir, okOr_some, pure_bind, bind_ok_iff,
      ← lift_outcome (firstDirectoryEntry vol dir) t]
    constructor
    · rintro ⟨o, u, hrun, ho⟩
      obtain rfl : o = none := by
        injection ho with ho
        exact Option.isNone_iff_eq_none.mp ho
      rw [hrun]
    · intro hnone
      exact ⟨none, _, run_eq hnone, rfl⟩
  have hremove (h : (remove vol path s).1 = .ok ()) : (firstDirectoryEntry vol dir t.1).1 =
      .ok none := by
    unfold remove removeWithWorkspace at h
    rw [withNewWorkspace_outcome, bind_ok hlookup, lift_outcome] at h
    unfold removeEntryTree at h
    obtain ⟨occupied, u, hrun, hrest⟩ := bind_ok_iff.mp h
    have hfree : occupied = false := by
      by_contra hne
      rw [if_pos (by simpa using hne)] at hrest
      cases hrest
    unfold isOccupied at hrun
    rw [hdir] at hrun
    obtain ⟨o, v, hfirst, ho⟩ := bind_ok_iff.mp (congrArg Prod.fst hrun)
    obtain rfl : o = none := by
      injection ho with ho
      rw [hfree] at ho
      simpa using ho
    exact congrArg Prod.fst hfirst
  exact ⟨fun h => h.elim hempty.mp hremove, fun h => .inl (hempty.mpr h)⟩

/-- The directory has no primary entry in its view, within its data length. -/
def Honest (vol : Volume) (s : Machine) (dir : Directory) : Prop :=
  ∃ n, Closes vol.geometry s.device.sectors dir n ∧
    ∀ x ∈ within vol.geometry s.device.sectors dir n, byteAt x.raw 0 ≠ 0x85

/-- The directory has primary entries, and none of its sets is shown. -/
def Concealed (vol : Volume) (s : Machine) (dir : Directory) : Prop :=
  ∃ n, Closes vol.geometry s.device.sectors dir n ∧
    Unshown (view vol.geometry s.device.sectors dir n) ∧
      ∃ x ∈ within vol.geometry s.device.sectors dir n, byteAt x.raw 0 = 0x85

/-- **A directory is rightly taken for empty unless all its sets are concealed.** -/
theorem takenForEmpty_honest_iff (vol : Volume) (s : Machine) (path : List Char)
    (e : DirectoryEntry)
    (dir : Directory) (hvol : MountedOn vol s)
    (hscratch : vol.geometry.bytesPerSector ≤ s.scratch.len) (hr : Healthy s)
    (hlookup : (lookup vol (trimSlashes path) s).1 = .ok e) (hdir : e.directory = some dir) :
    (TakenForEmpty vol path s → Honest vol s dir) ↔ ¬ Concealed vol s dir := by
  have hready : Ready vol.geometry s := ⟨hvol.sound, hscratch⟩
  obtain ⟨t, ht⟩ := lookup_run hlookup
  have hquiet := ((wp_ok ht).mp (lookup_safe hready hvol.table _ _ (calm_new s))).quiet
  have hmedia := (OnMedia.refl hr).quiet hquiet
  have hnone := @firstDirectoryEntry_none vol t.1 dir (hmedia.ready hready) hmedia.healthy
  rw [hmedia.sectors] at hnone
  rw [takenForEmpty_iff hdir ht, hnone]
  constructor
  · rintro hhonest ⟨n, hcloses, hunshown, x, hx, hprim⟩
    obtain ⟨m, hcloses', hno⟩ := hhonest ⟨n, hcloses, hunshown⟩
    unfold within at hx hno
    rw [hcloses.unique hcloses'] at hx
    exact hno x hx hprim
  · rintro hconcealed ⟨n, hcloses, hunshown⟩
    refine ⟨n, hcloses, fun x hx hprim => hconcealed ⟨n, hcloses, hunshown, x, hx, hprim⟩⟩

end Reports

/-! ### A file with one secondary more -/

def extraSet : NewEntrySet := { newDirectorySet [68] 5 512 with noFatChain := true }

/-- The set of a file with a vendor extension behind its name entry. -/
def extraSlots : List UInt8 := overlay (setBytes (newFileSet [70]) 4) 96 [0xe0]

/-- The directory `D` has the cluster 5 with the set. -/
def extra : Machine :=
  let m := smallMachine smallFat (sectorWith [(0, [0x0f])])
    (sectorWith ((64, setBytes extraSet 3) :: systemSlots 0))
  { m with device := { m.device with
      sectors := fun lba => if lba = 29 then sectorWith [(0, extraSlots)]
        else m.device.sectors lba } }

def extraEntry : DirectoryEntry := splitEntry extraSet true 26 2

def extraExtent : Directory where
  firstCluster := 5
  dataLength := 512
  noFatChain := true
  primary := some extraEntry.primary
  stream := some extraEntry.stream
  entryLocs := extraEntry.entryLocs
  entryCount := 3

lemma mount_extra : (mount extra).1 = .ok smallVolume := by decide +kernel

lemma lookup_extra : (lookup smallVolume (trimSlashes ['D']) extra).1 = .ok extraEntry := by
  decide +kernel

theorem takenForEmpty_honest_iff_extra :
    (TakenForEmpty smallVolume ['D'] extra → Honest smallVolume extra extraExtent) ↔
      ¬ Concealed smallVolume extra extraExtent :=
  takenForEmpty_honest_iff smallVolume extra ['D'] extraEntry extraExtent ⟨extra, mount_extra, rfl⟩
    (by decide) (fun _ => rfl) lookup_extra rfl

/-- The directory of the file is reported empty, and it is removed. -/
theorem extra_taken : (isDirEmpty smallVolume ['D'] extra).1 = .ok true ∧
    (remove smallVolume ['D'] extra).1 = .ok () ∧ ¬ Honest smallVolume extra extraExtent := by
  refine ⟨by decide +kernel, by decide +kernel, ?_⟩
  have hcloses : Closes smallVolume.geometry extra.device.sectors extraExtent 1 := by
    refine ⟨⟨by decide, by decide, Walked.zero _ _ _, by decide⟩, .inl ?_⟩
    decide +kernel
  have hprim : ∃ x ∈ within smallVolume.geometry extra.device.sectors extraExtent 1,
      byteAt x.raw 0 = 0x85 := by decide +kernel
  rintro ⟨n, hcloses', hno⟩
  obtain ⟨x, hx, hx85⟩ := hprim
  unfold within at hx hno
  rw [hcloses.unique hcloses'] at hx
  exact hno x hx hx85

end ExfatEmbedded.Emptiness

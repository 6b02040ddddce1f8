import ExfatEmbedded.Scan

/-!
Entry sets as groups of slots.

`IsSet` is the grammar of a set, `entryOf` the entry it stands for. The decoder, when it is between
sets, goes over such a group and yields that entry at its last slot.
-/

namespace ExfatEmbedded.Sets

open ExfatEmbedded.Library Exec ExfatEmbedded.Core ExfatEmbedded.Entry ExfatEmbedded.Scan

/-- The checksum of slots, the first of which is a primary entry when `primary` says so. -/
def slotsSum : List Slot → Bool → ℕ → ℕ
  | [], _, sum => sum
  | x :: xs, primary, sum => slotsSum xs false (checksumStep sum x.raw primary)

/-- The decoder behind the stream extension of a set. -/
def afterStream (prim stream : Slot) : EntrySet :=
  { (EntrySet.start prim.raw prim.loc).takeStream stream.raw stream.loc with
    secondaryLeft := byteAt prim.raw 1 - 1 }

/-- The decoder behind one name entry. -/
def afterName (s : EntrySet) (x : Slot) : EntrySet :=
  { s.takeName x.raw x.loc with secondaryLeft := s.secondaryLeft - 1 }

/-- The decoder behind name entries. -/
def afterNames (s : EntrySet) (names : List Slot) : EntrySet := names.foldl afterName s

/-- The entry a set stands for. -/
def entryOf (prim stream : Slot) (names : List Slot) : DirectoryEntry :=
  (afterNames (afterStream prim stream) names).entry

/-- A primary entry, a stream extension and name entries make up a set. -/
structure IsSet (prim stream : Slot) (names : List Slot) : Prop where
  primary : byteAt prim.raw 0 = 0x85
  count : byteAt prim.raw 1 = names.length + 1
  streamType : byteAt stream.raw 0 = 0xc0
  streamOk : ¬ EntrySet.StreamBad stream.raw
  nameType : ∀ x ∈ names, byteAt x.raw 0 = 0xc1
  nameCount : (byteAt stream.raw 3 + 14) / 15 = names.length
  sum : slotsSum (prim :: stream :: names) true 0 = numAt prim.raw 2 2
  length : ∀ x ∈ prim :: stream :: names, x.raw.length = 32

/-! ### The decoder over the name entries -/

section Names

variable (s : EntrySet) (x : Slot) (names : List Slot)

@[simp] lemma afterNames_nil : afterNames s [] = s := rfl

@[simp] lemma afterNames_cons : afterNames s (x :: names) = afterNames (afterName s x) names := rfl

lemma afterNames_secondaryLeft :
    (afterNames s names).secondaryLeft = s.secondaryLeft - names.length := by
  induction names generalizing s with
  | nil => rfl
  | cons x names ih =>
    rw [afterNames_cons, ih, List.length_cons]
    simp only [afterName, EntrySet.takeName]
    omega

lemma afterNames_checksum : (afterNames s names).checksum = slotsSum names false s.checksum := by
  induction names generalizing s with
  | nil => rfl
  | cons x names ih =>
    rw [afterNames_cons, ih]
    rfl

lemma afterNames_expected : (afterNames s names).expectedChecksum = s.expectedChecksum := by
  induction names generalizing s with
  | nil => rfl
  | cons x names ih =>
    rw [afterNames_cons, ih]
    rfl

lemma afterNames_streamSeen : (afterNames s names).streamSeen = s.streamSeen := by
  induction names generalizing s with
  | nil => rfl
  | cons x names ih =>
    rw [afterNames_cons, ih]
    rfl

lemma afterNames_written (h : s.nameWritten ≤ 255) :
    (afterNames s names).nameWritten = min 255 (s.nameWritten + 15 * names.length) := by
  induction names generalizing s with
  | nil => simp [h]
  | cons x names ih =>
    have hx : (afterName s x).nameWritten = min 255 (s.nameWritten + 15) := rfl
    rw [afterNames_cons, ih _ (by omega), hx, List.length_cons]
    omega

lemma afterNames_entry : (afterNames s names).entry =
    { s.entry with
      name := (afterNames s names).entry.name
      entryLocs := (afterNames s names).entry.entryLocs
      entryCount := s.entry.entryCount + names.length } := by
  induction names generalizing s with
  | nil => rfl
  | cons x names ih =>
    rw [afterNames_cons, ih]
    simp only [List.length_cons]
    have hcount : (afterName s x).entry.entryCount = s.entry.entryCount + 1 := rfl
    rw [hcount, show s.entry.entryCount + 1 + names.length =
      s.entry.entryCount + (names.length + 1) by omega]
    rfl

lemma afterNames_locs :
    (afterNames s names).entry.entryLocs = (names.zipIdx s.entry.entryCount).foldl
      (fun locs p => locs.set p.2 p.1.loc) s.entry.entryLocs := by
  induction names generalizing s with
  | nil => rfl
  | cons x names ih =>
    rw [afterNames_cons, ih]
    rfl

end Names

lemma foldl_set {α : Type} {f : Slot → α} {l : List α} {xs : List Slot} {n : ℕ}
    (h : n + xs.length ≤ l.length) :
    (xs.zipIdx n).foldl (fun l p => l.set p.2 (f p.1)) l = overlay l n (xs.map f) := by
  induction xs generalizing n l with
  | nil => simp [overlay]
  | cons x xs ih =>
    rw [List.length_cons] at h
    rw [List.zipIdx_cons, List.foldl_cons, ih (by rw [List.length_set]; omega)]
    unfold overlay
    have htake : (l.set n (f x)).take (n + 1) = l.take n ++ [f x] := by
      rw [List.take_add_one, List.take_set_of_le le_rfl]
      simp [show n < l.length by omega]
    rw [htake, List.drop_set_of_lt (by simp; omega)]
    simp only [List.map_cons, List.length_map, List.length_cons, List.append_assoc,
      List.singleton_append]
    rw [show n + 1 + xs.length = n + (xs.length + 1) by omega]

/-- The units of name entries. -/
def unitsIn (names : List Slot) : List ℕ := names.flatMap fun x => unitsOf x.raw

lemma unitsOf_length (raw : List UInt8) : (unitsOf raw).length = 15 := by simp [unitsOf]

lemma afterNames_name {s : EntrySet} {names : List Slot} (hne : names ≠ [])
    (hlen : s.entry.name.length = 255) (hmax : s.entry.nameLen ≤ 255)
    (hneed : s.nameWritten + 15 * names.length < s.entry.nameLen + 15)
    (hdone : s.entry.nameLen ≤ s.nameWritten + 15 * names.length) :
    (afterNames s names).entry.name = overlay s.entry.name s.nameWritten
      ((unitsIn names).take (s.entry.nameLen - s.nameWritten)) := by
  induction names generalizing s with
  | nil => exact absurd rfl hne
  | cons x names ih =>
    rw [List.length_cons] at hneed hdone
    have hunits := unitsOf_length x.raw
    have hname : (afterName s x).entry.name = overlay s.entry.name s.nameWritten
        ((unitsOf x.raw).take (s.entry.nameLen - s.nameWritten)) := rfl
    have hfit : s.nameWritten + ((unitsOf x.raw).take (s.entry.nameLen - s.nameWritten)).length ≤
        s.entry.name.length := by
      rw [List.length_take]
      omega
    rw [afterNames_cons]
    rcases names with _ | ⟨y, names⟩
    · simpa [unitsIn] using hname
    · rw [List.length_cons] at hneed hdone
      have hwritten : (afterName s x).nameWritten = s.nameWritten + 15 := by
        change min 255 (s.nameWritten + 15) = _
        omega
      have hfull : (unitsOf x.raw).take (s.entry.nameLen - s.nameWritten) = unitsOf x.raw :=
        List.take_of_length_le (by omega)
      have hnl : (afterName s x).entry.nameLen = s.entry.nameLen := rfl
      have hrest := ih (s := afterName s x) (by simp)
        (by rw [hname, overlay_length hfit, hlen]) hmax
        (by rw [hwritten, hnl, List.length_cons]; omega)
        (by rw [hwritten, hnl, List.length_cons]; omega)
      rw [hfull] at hname hfit
      rw [hnl, hwritten, hname, ← hunits, overlay_overlay hfit, hunits] at hrest
      have happ : unitsIn (x :: y :: names) = unitsOf x.raw ++ unitsIn (y :: names) := rfl
      rw [hrest, happ, List.take_append, hunits,
        List.take_of_length_le (l := unitsOf x.raw) (by omega)]
      rw [show s.entry.nameLen - (s.nameWritten + 15) = s.entry.nameLen - s.nameWritten -
        15 by omega]

/-! ### The decoder over a set -/

variable {τ : Type} {visitor : DirectoryEntry → τ → Bool × τ} {t : τ}

/-- The scan behind the last slot of the set of `e`. -/
def visited (visitor : DirectoryEntry → τ → Bool × τ) (s : EntrySet) (t : τ) : Progress τ :=
  if (visitor s.entry t).1 then .going s (visitor s.entry t).2
  else .stopped (visitor s.entry t).2

/-- The decoder waits for these name entries. -/
structure Expects (s : EntrySet) (names : List Slot) : Prop where
  left : s.secondaryLeft = names.length
  ignored : s.ignored = false
  streamSeen : s.streamSeen = true
  nameLen : s.entry.nameLen ≤ 255
  need : s.nameWritten + 15 * names.length < s.entry.nameLen + 15
  done : s.entry.nameLen ≤ s.nameWritten + 15 * names.length
  room : s.entry.entryCount + names.length ≤ 19
  sum : slotsSum names false s.checksum = s.expectedChecksum
  nameType : ∀ x ∈ names, byteAt x.raw 0 = 0xc1
  length : ∀ x ∈ names, x.raw.length = 32

lemma Expects.tail {s : EntrySet} {x : Slot} {names : List Slot} (h : Expects s (x :: names))
    (hne : names ≠ []) : Expects (afterName s x) names := by
  have hpos : 0 < names.length := List.length_pos_iff.mpr hne
  have hleft := h.left
  have hneed := h.need
  have hdone := h.done
  have hroom := h.room
  have hmax := h.nameLen
  rw [List.length_cons] at hleft hneed hdone hroom
  have hwritten : (afterName s x).nameWritten = s.nameWritten + 15 := by
    change min 255 (s.nameWritten + 15) = _
    omega
  refine ⟨?_, h.ignored, h.streamSeen, hmax, ?_, ?_, ?_, h.sum, ?_, ?_⟩
  · change s.secondaryLeft - 1 = _
    omega
  · rw [hwritten]
    change _ < s.entry.nameLen + 15
    omega
  · rw [hwritten]
    change s.entry.nameLen ≤ _
    omega
  · change s.entry.entryCount + 1 + _ ≤ 19
    omega
  · exact fun y hy => h.nameType y (List.mem_cons_of_mem _ hy)
  · exact fun y hy => h.length y (List.mem_cons_of_mem _ hy)

lemma push_name {s : EntrySet} {x : Slot} {names : List Slot} (h : Expects s (x :: names)) :
    EntrySet.push x.raw x.loc s = (s.takeName x.raw x.loc).consume := by
  have htype := h.nameType x List.mem_cons_self
  have hlen := h.length x List.mem_cons_self
  have hleft := h.left
  have hneed := h.need
  have hroom := h.room
  rw [List.length_cons] at hleft hneed hroom
  unfold EntrySet.push
  rw [if_neg (by omega), if_neg (by omega), if_neg (by omega), h.ignored, h.streamSeen]
  simp only [Bool.false_eq_true, if_false]
  rw [if_neg (by omega), if_pos ⟨htype, trivial, by omega⟩, if_neg (by omega)]

lemma push_last {s : EntrySet} {x : Slot} (h : Expects s [x]) :
    EntrySet.push x.raw x.loc s = (.ok (some (afterName s x).entry), afterName s x) := by
  have hleft := h.left
  have hdone := h.done
  have hmax := h.nameLen
  have hsum := h.sum
  simp only [List.length_cons, List.length_nil] at hleft hdone
  have hz : s.secondaryLeft - 1 = 0 := by omega
  have hwritten : ¬ min 255 (s.nameWritten + 15) < s.entry.nameLen := by omega
  rw [push_name h]
  unfold EntrySet.consume EntrySet.complete
  simp only [EntrySet.takeName, EntrySet.record, hz, h.streamSeen, if_true, Bool.not_true,
    Bool.false_or]
  rw [if_neg]
  · unfold afterName EntrySet.takeName EntrySet.record
    simp [hz, h.streamSeen]
  · simp only [hwritten, decide_false, Bool.false_or, ne_eq, not_not, decide_eq_true_eq]
    exact hsum

lemma push_more {s : EntrySet} {x : Slot} {names : List Slot} (h : Expects s (x :: names))
    (hne : names ≠ []) : EntrySet.push x.raw x.loc s = (.ok none, afterName s x) := by
  have hleft := h.left
  have hpos := List.length_pos_iff.mpr hne
  rw [List.length_cons] at hleft
  have hz : ¬ s.secondaryLeft - 1 = 0 := by omega
  rw [push_name h]
  unfold EntrySet.consume
  simp only [EntrySet.takeName, hz, if_false]
  rfl

lemma sweep_names {s : EntrySet} {names : List Slot} (hne : names ≠ []) (h : Expects s names) :
    sweep visitor names (.going s t) = visited visitor (afterNames s names) t := by
  induction names generalizing s with
  | nil => exact absurd rfl hne
  | cons x names ih =>
    have htype := h.nameType x List.mem_cons_self
    have hstep : sweep visitor (x :: names) (.going s t) =
        sweep visitor names ((Progress.going s t).step visitor x) := rfl
    rw [hstep, Progress.step, if_neg (by omega)]
    rcases names with _ | ⟨y, names⟩
    · rw [push_last h]
      simp only [afterNames_cons, afterNames_nil, visited, sweep_nil]
      rfl
    · rw [push_more h (by simp)]
      exact ih (by simp) (h.tail (by simp))

section Set

variable {prim stream : Slot} {names : List Slot} {e : EntrySet}

lemma nameLen_le (stream : Slot) : byteAt stream.raw 3 ≤ 255 := by
  have := (stream.raw.getD 3 0).toNat_lt
  unfold byteAt
  omega

lemma IsSet.names_le (h : IsSet prim stream names) : names.length ≤ 17 := by
  have := nameLen_le stream
  have := h.nameCount
  omega

lemma IsSet.names_pos (h : IsSet prim stream names) : 0 < names.length := by
  have hbad := h.streamOk
  have := h.nameCount
  unfold EntrySet.StreamBad at hbad
  omega

lemma IsSet.names_ne (h : IsSet prim stream names) : names ≠ [] :=
  List.length_pos_iff.mp h.names_pos

lemma IsSet.expects (h : IsSet prim stream names) :
    Expects (afterStream prim stream) names := by
  have hcount := h.count
  have hle := h.names_le
  have hlen := nameLen_le stream
  have hneed := h.nameCount
  have hpos := h.names_pos
  refine ⟨?_, ?_, rfl, hlen, ?_, ?_, ?_, h.sum, h.nameType, fun x hx => ?_⟩
  · change byteAt prim.raw 1 - 1 = _
    omega
  · change decide (18 < byteAt prim.raw 1) = false
    rw [decide_eq_false_iff_not]
    omega
  · change 0 + 15 * names.length < byteAt stream.raw 3 + 15
    omega
  · change byteAt stream.raw 3 ≤ 0 + 15 * names.length
    omega
  · change 1 + 1 + names.length ≤ 19
    omega
  · exact h.length x (by simp [hx])

lemma push_primary (h : IsSet prim stream names) (hidle : e.secondaryLeft = 0) :
    EntrySet.push prim.raw prim.loc e = (.ok none, EntrySet.start prim.raw prim.loc) := by
  have hlen := h.length prim (by simp)
  have hcount := h.count
  have hpos := h.names_pos
  unfold EntrySet.push
  rw [if_neg (by omega), if_pos h.primary, if_neg (by omega)]

lemma push_stream (h : IsSet prim stream names) :
    EntrySet.push stream.raw stream.loc (EntrySet.start prim.raw prim.loc) =
      (.ok none, afterStream prim stream) := by
  have hlen := h.length stream (by simp)
  have hcount := h.count
  have hpos := h.names_pos
  have htype := h.streamType
  have hignored : (EntrySet.start prim.raw prim.loc).ignored = false := h.expects.ignored
  have hleft : (EntrySet.start prim.raw prim.loc).secondaryLeft = byteAt prim.raw 1 := rfl
  unfold EntrySet.push
  rw [if_neg (by omega), if_neg (by omega), if_neg (by omega), hignored]
  simp only [Bool.false_eq_true, if_false]
  rw [if_pos ⟨htype, rfl, rfl⟩, if_neg h.streamOk]
  unfold EntrySet.consume
  have hmore : ¬ byteAt prim.raw 1 - 1 = 0 := by omega
  simp only [EntrySet.takeStream, hleft, hmore, if_false]
  rfl

/-- **A set between sets is decoded to its entry.** -/
theorem sweep_set (h : IsSet prim stream names) (hidle : e.secondaryLeft = 0) :
    sweep visitor (prim :: stream :: names) (.going e t) =
      visited visitor (afterNames (afterStream prim stream) names) t := by
  have hprim := h.primary
  have hstream := h.streamType
  rw [← sweep_names h.names_ne h.expects]
  unfold sweep
  rw [List.foldl_cons, List.foldl_cons, Progress.step, if_neg (by omega), push_primary h hidle]
  simp only
  rw [Progress.step, if_neg (by omega), push_stream h]

lemma IsSet.idle (h : IsSet prim stream names) :
    (afterNames (afterStream prim stream) names).secondaryLeft = 0 := by
  rw [afterNames_secondaryLeft, h.expects.left]
  omega

/-! ### The entry of a set -/

lemma entryOf_eq (prim stream : Slot) (names : List Slot) : entryOf prim stream names =
    { (afterStream prim stream).entry with
      name := (entryOf prim stream names).name
      entryLocs := (entryOf prim stream names).entryLocs
      entryCount := names.length + 2 } := by
  unfold entryOf
  rw [afterNames_entry]
  have hcount : (afterStream prim stream).entry.entryCount = 2 := rfl
  rw [hcount, Nat.add_comm]

lemma entryOf_entryCount : (entryOf prim stream names).entryCount = names.length + 2 := by
  rw [entryOf_eq]

lemma entryOf_primary : (entryOf prim stream names).primary = prim.loc := by
  rw [entryOf_eq]
  rfl

lemma entryOf_stream : (entryOf prim stream names).stream = stream.loc := by
  rw [entryOf_eq]
  rfl

lemma entryOf_locs (h : IsSet prim stream names) : (entryOf prim stream names).entryLocs =
    overlay noLocators 0 ((prim :: stream :: names).map Slot.loc) := by
  have hle := h.names_le
  have hstart : (afterStream prim stream).entry.entryLocs =
      overlay noLocators 0 [prim.loc, stream.loc] := rfl
  unfold entryOf
  rw [afterNames_locs, foldl_set, hstart]
  · change overlay _ 2 _ = _
    simp only [overlay, noLocators, List.map_cons, List.length_cons, List.length_nil,
      List.length_map, List.take_zero, List.nil_append, List.cons_append, Nat.zero_add]
    rw [Nat.add_comm 2]
    rfl
  · change 2 + names.length ≤ 19
    omega

lemma entryOf_take_locs (h : IsSet prim stream names) :
    (entryOf prim stream names).entryLocs.take (entryOf prim stream names).entryCount =
      (prim :: stream :: names).map Slot.loc := by
  have hle := h.names_le
  have htake := @take_overlay _ noLocators 0 ((prim :: stream :: names).map Slot.loc)
    (by simp [noLocators]; omega)
  rw [entryOf_locs h, entryOf_entryCount]
  simpa using htake

lemma entryOf_name (h : IsSet prim stream names) :
    (entryOf prim stream names).name =
      overlay (List.replicate 255 0) 0 ((unitsIn names).take (byteAt stream.raw 3)) := by
  have hexp := h.expects
  exact afterNames_name (s := afterStream prim stream) h.names_ne List.length_replicate
    hexp.nameLen hexp.need hexp.done

end Set

/-! ### What the decoder accepts -/

/-- A set which is not complete. -/
structure IsOpen (prim stream : Slot) (names : List Slot) : Prop where
  primary : byteAt prim.raw 0 = 0x85
  more : names.length + 1 < byteAt prim.raw 1
  count : byteAt prim.raw 1 ≤ 18
  streamType : byteAt stream.raw 0 = 0xc0
  streamOk : ¬ EntrySet.StreamBad stream.raw
  nameType : ∀ x ∈ names, byteAt x.raw 0 = 0xc1
  need : 15 * names.length < byteAt stream.raw 3 + 15

/-- What the decoder stands for behind `done`. -/
inductive Parsed (done : List Slot) (e : EntrySet) : Prop
  | idle (h : e.secondaryLeft = 0)
  | ignoring (h : e.ignored = true)
  | primary (pre : List Slot) (prim : Slot) (hdone : done = pre ++ [prim])
      (hprim : byteAt prim.raw 0 = 0x85) (hcount : 2 ≤ byteAt prim.raw 1 ∧ byteAt prim.raw 1 ≤ 18)
      (he : e = EntrySet.start prim.raw prim.loc)
  | named (pre : List Slot) (prim stream : Slot) (names : List Slot)
      (hdone : done = pre ++ prim :: stream :: names) (hopen : IsOpen prim stream names)
      (he : e = afterNames (afterStream prim stream) names)

/-- `done` ends with the set of `entry`. -/
def EndsWith (done : List Slot) (entry : DirectoryEntry) : Prop :=
  ∃ pre prim stream names, done = pre ++ prim :: stream :: names ∧ IsSet prim stream names ∧
    entry = entryOf prim stream names

lemma front_of_ends {done pre : List Slot} {prim stream x : Slot} {names : List Slot}
    (h : done ++ [x] = pre ++ prim :: stream :: names) : ∃ front, done = pre ++ [prim] ++
    front := by
  refine ⟨(stream :: names).dropLast, ?_⟩
  have hdrop := congrArg List.dropLast h
  rw [List.dropLast_concat, List.dropLast_append_of_ne_nil (List.cons_ne_nil _ _),
    List.dropLast_cons_of_ne_nil (List.cons_ne_nil _ _)] at hdrop
  rw [hdrop]
  simp

/-- What the decoder makes of the slot behind `done`. -/
def Decodes (done : List Slot) : Outcome Error (Option DirectoryEntry) × EntrySet → Prop
  | (.ok none, e) => Parsed done e
  | (.ok (some entry), e) => e.secondaryLeft = 0 ∧ EndsWith done entry
  | _ => True

section Sound

variable {done pre : List Slot} {prim stream x : Slot} {names : List Slot} {e : EntrySet}

lemma afterNames_snoc (s : EntrySet) (names : List Slot) (x : Slot) :
    afterNames s (names ++ [x]) = afterName (afterNames s names) x := List.foldl_append

lemma afterStream_left (stream : Slot) (names : List Slot) {k : ℕ} (h : byteAt prim.raw 1 = k) :
    (afterNames (afterStream prim stream) names).secondaryLeft = k - 1 - names.length := by
  rw [afterNames_secondaryLeft, ← h]
  rfl

lemma afterStream_written (prim stream : Slot) (names : List Slot) :
    (afterNames (afterStream prim stream) names).nameWritten = min 255 (15 * names.length) := by
  rw [afterNames_written _ _ (by change 0 ≤ 255; omega)]
  change min 255 (0 + _) = _
  rw [Nat.zero_add]

lemma afterStream_nameLen (prim stream : Slot) (names : List Slot) :
    (afterNames (afterStream prim stream) names).entry.nameLen = byteAt stream.raw 3 := by
  rw [afterNames_entry]
  rfl

lemma consume_last (hopen : IsOpen prim stream names) (hx : byteAt x.raw 0 = 0xc1)
    (hlast : names.length + 2 = byteAt prim.raw 1)
    (hlen : ∀ y ∈ prim :: stream :: (names ++ [x]), y.raw.length = 32)
    (hneed : (afterNames (afterStream prim stream) names).nameWritten < byteAt stream.raw 3) :
    Decodes (pre ++ prim :: stream :: (names ++ [x]))
      ((afterNames (afterStream prim stream) names).takeName x.raw x.loc).consume := by
  have hleft := afterStream_left stream names hlast.symm
  have hwritten := afterStream_written prim stream names
  have hmax := nameLen_le stream
  unfold EntrySet.consume
  have hz : ((afterNames (afterStream prim stream) names).takeName x.raw x.loc).secondaryLeft - 1
      = 0 := by
    change (afterNames (afterStream prim stream) names).secondaryLeft - 1 = 0
    omega
  simp only [hz, if_true]
  unfold EntrySet.complete
  split_ifs with hbad
  · trivial
  simp only [Bool.or_eq_true, Bool.not_eq_true', decide_eq_true_eq, not_or] at hbad
  obtain ⟨⟨-, hdone⟩, hsum⟩ := hbad
  refine ⟨rfl, pre, prim, stream, names ++ [x], rfl, ?_, ?_⟩
  · have hdone' : byteAt stream.raw 3 ≤
        min 255 ((afterNames (afterStream prim stream) names).nameWritten + 15) := by
      rw [← afterStream_nameLen prim stream names]
      exact Nat.not_lt.mp hdone
    refine ⟨hopen.primary, by simp; omega, hopen.streamType, hopen.streamOk, fun y hy => ?_, ?_, ?_,
      hlen⟩
    · rcases List.mem_append.mp hy with hy | hy
      · exact hopen.nameType y hy
      · rwa [List.mem_singleton.mp hy]
    · rw [List.length_append, List.length_singleton]
      omega
    · have hchk := not_not.mp hsum
      change checksumStep (afterNames (afterStream prim stream) names).checksum x.raw false =
        (afterNames (afterStream prim stream) names).expectedChecksum at hchk
      rw [afterNames_expected] at hchk
      have hsnoc : slotsSum (names ++ [x]) false (afterStream prim stream).checksum =
          checksumStep (afterNames (afterStream prim stream) names).checksum x.raw false := by
        rw [← afterNames_checksum, afterNames_snoc]
        rfl
      exact hsnoc.trans hchk
  · unfold entryOf
    rw [afterNames_snoc]
    rfl

/-- **One slot.** A decoder error aside, the decoder knows what it has seen. -/
theorem push_sound (h : Parsed done e) (hlen : ∀ y ∈ done, y.raw.length = 32)
    (hx : x.raw.length = 32) : Decodes (done ++ [x]) (EntrySet.push x.raw x.loc e) := by
  unfold EntrySet.push
  rw [if_neg (by omega)]
  split_ifs with hprim hbad hleft hign hstream hstreamBad hname hfull
  · trivial
  · rw [not_or] at hbad
    by_cases hcount : byteAt x.raw 1 ≤ 18
    · exact .primary done x rfl hprim ⟨by omega, hcount⟩ rfl
    · exact .ignoring (decide_eq_true (by omega))
  · exact .idle hleft
  · by_cases hz : e.secondaryLeft - 1 = 0
    · exact .idle hz
    · exact .ignoring (decide_eq_true hz)
  · trivial
  · -- the stream extension
    obtain ⟨htype, hseen, hcount⟩ := hstream
    cases h with
    | idle h => exact absurd h hleft
    | ignoring h => exact absurd h hign
    | primary pre prim hdone hprim' hcount' he =>
      subst he
      have hmore : ¬ byteAt prim.raw 1 - 1 = 0 := by omega
      have hconsume : ((EntrySet.start prim.raw prim.loc).takeStream x.raw x.loc).consume =
          (.ok none, afterStream prim x) := by
        unfold EntrySet.consume
        have hz : ¬ ((EntrySet.start prim.raw prim.loc).takeStream x.raw x.loc).secondaryLeft - 1 =
            0 :=
          hmore
        simp only [hz, if_false]
        rfl
      rw [hconsume]
      refine .named pre prim x [] (by rw [hdone, List.append_assoc]; rfl) ?_ rfl
      exact ⟨hprim', by simp; omega, hcount'.2, htype, hstreamBad, nofun, by simp⟩
    | named pre prim stream names hdone hopen he =>
      rw [he, afterNames_streamSeen] at hseen
      cases hseen
  · trivial
  · -- a name entry
    obtain ⟨htype, hseen, hneed⟩ := hname
    cases h with
    | idle h => exact absurd h hleft
    | ignoring h => exact absurd h hign
    | primary pre prim hdone hprim' hcount' he =>
      rw [he] at hseen
      cases hseen
    | named pre prim stream names hdone hopen he =>
      subst he
      rw [afterStream_nameLen] at hneed
      have hmore := hopen.more
      have hwritten := afterStream_written prim stream names
      have hmax := nameLen_le stream
      have hdone' : done ++ [x] = pre ++ prim :: stream :: (names ++ [x]) := by
        rw [hdone]
        simp
      rw [hdone']
      by_cases hlast : names.length + 2 = byteAt prim.raw 1
      · refine consume_last hopen htype hlast (fun y hy => ?_) hneed
        have hmem : y ∈ done ++ [x] := hdone' ▸ List.mem_append_right _ hy
        rcases List.mem_append.mp hmem with hy | hy
        · exact hlen y hy
        · rwa [List.mem_singleton.mp hy]
      · have hz : ¬ ((afterNames (afterStream prim stream) names).takeName x.raw
          x.loc).secondaryLeft
            - 1 = 0 := by
          change ¬ (afterNames (afterStream prim stream) names).secondaryLeft - 1 = 0
          rw [afterStream_left _ _ rfl]
          omega
        unfold EntrySet.consume
        simp only [hz, if_false]
        refine .named pre prim stream (names ++ [x]) rfl ?_ ?_
        · refine ⟨hopen.primary, by simp; omega, hopen.count, hopen.streamType, hopen.streamOk,
            fun y hy => ?_, ?_⟩
          · rcases List.mem_append.mp hy with hy | hy
            · exact hopen.nameType y hy
            · rwa [List.mem_singleton.mp hy]
          · rw [List.length_append, List.length_singleton]
            omega
        · rw [afterNames_snoc]
          rfl
  · exact .ignoring rfl

end Sound

end ExfatEmbedded.Sets

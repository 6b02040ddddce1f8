import ExfatEmbedded.History
import ExfatEmbedded.Listing
import ExfatEmbedded.Sets
import Mathlib.Data.List.Induction

/-!
The entry-set decoder accepts exactly the sets of its grammar.

`Open` counts the slots a set still asks for, `IsSet` says what a group of slots has to be, and
`groupEntry` what it stands for; none of them speaks of the decoder.
-/

namespace ExfatEmbedded.Grammar

open ExfatEmbedded.Library Exec ExfatEmbedded.Core ExfatEmbedded.Entry ExfatEmbedded.Scan
open ExfatEmbedded.Sets ExfatEmbedded.History

/-- Feed the decoder with slots, and collect what it yields at each. -/
def feed : List Slot → Exec EntrySet Error (List (Option DirectoryEntry))
  | [] => pure []
  | x :: slots => do
    let o ← EntrySet.push x.raw x.loc
    let os ← feed slots
    pure (o :: os)

/-- Behind `done`, `k` slots of a set are still to come; none is, between sets. A primary entry
begins a set of as many more slots as it says, and every other slot is one of the set it is met
in. -/
inductive Open : List Slot → ℕ → Prop
  | nil : Open [] 0
  | stray {done : List Slot} {x : Slot} (h : Open done 0) (hx : byteAt x.raw 0 ≠ 0x85) :
      Open (done ++ [x]) 0
  | primary {done : List Slot} {x : Slot} (h : Open done 0) (hx : byteAt x.raw 0 = 0x85) :
      Open (done ++ [x]) (byteAt x.raw 1)
  | secondary {done : List Slot} {x : Slot} {k : ℕ} (h : Open done (k + 1))
      (hx : byteAt x.raw 0 ≠ 0x85) : Open (done ++ [x]) k

/-- The entry which the fields of a group of slots describe. -/
def groupEntry (prim stream : Slot) (names : List Slot) : DirectoryEntry where
  isDirectory := (numAt prim.raw 4 2).testBit 4
  firstCluster := numAt stream.raw 20 4
  dataLength := numAt stream.raw 24 8
  validLength := numAt stream.raw 8 8
  noFatChain := (byteAt stream.raw 1).testBit 1
  created := ⟨numAt prim.raw 8 4, byteAt prim.raw 20, byteAt prim.raw 22⟩
  modified := ⟨numAt prim.raw 12 4, byteAt prim.raw 21, byteAt prim.raw 23⟩
  accessed := ⟨numAt prim.raw 16 4, 0, byteAt prim.raw 24⟩
  name := overlay (List.replicate 255 0) 0 ((unitsIn names).take (byteAt stream.raw 3))
  nameLen := byteAt stream.raw 3
  primary := prim.loc
  stream := stream.loc
  entryLocs := overlay noLocators 0 ((prim :: stream :: names).map Slot.loc)
  entryCount := byteAt prim.raw 1 + 1

variable {done slots pre names : List Slot} {prim stream x : Slot} {s t : EntrySet}
  {os : List (Option DirectoryEntry)}

lemma IsSet.entryOf_group (h : IsSet prim stream names) :
    entryOf prim stream names = groupEntry prim stream names := by
  have hcount := h.count
  rw [entryOf_eq, entryOf_name h, entryOf_locs h]
  unfold groupEntry
  rw [hcount]
  rfl

/-! ### Feeding -/

lemma feed_append (a b : List Slot) :
    feed (a ++ b) = (do let os ← feed a; let os' ← feed b; pure (os ++ os')) := by
  induction a with
  | nil => simp [feed]
  | cons x a ih => simp [feed, ih, bind_assoc]

lemma feed_snoc (h : feed (done ++ [x]) s = (.ok os, t)) :
    ∃ os' u o, feed done s = (.ok os', u) ∧ EntrySet.push x.raw x.loc u = (.ok o, t) := by
  rw [feed_append, bind_apply] at h
  rcases hd : feed done s with ⟨os' | _ | _, u⟩
  · rw [hd] at h
    simp only [feed] at h
    rw [bind_apply, bind_apply] at h
    rcases hp : EntrySet.push x.raw x.loc u with ⟨o | _ | _, v⟩
    · rw [hp] at h
      refine ⟨os', u, o, rfl, ?_⟩
      rw [hp]
      cases h
      rfl
    · rw [hp] at h
      cases h
    · rw [hp] at h
      cases h
  · rw [hd] at h
    cases h
  · rw [hd] at h
    cases h

lemma feed_front (h : feed (done ++ slots) s = (.ok os, t)) :
    ∃ os' u, feed done s = (.ok os', u) := by
  rw [feed_append, bind_apply] at h
  rcases hd : feed done s with ⟨os' | _ | _, u⟩
  · exact ⟨os', u, rfl⟩
  · rw [hd] at h
    cases h
  · rw [hd] at h
    cases h

/-! ### The slots to come -/

lemma push_left {o : Option DirectoryEntry}
    (h : EntrySet.push x.raw x.loc s = (.ok o, t)) :
    if byteAt x.raw 0 = 0x85 then s.secondaryLeft = 0 ∧ t.secondaryLeft = byteAt x.raw 1
    else t.secondaryLeft = s.secondaryLeft - 1 := by
  have hconsume {u : EntrySet} {p : Outcome Error (Option DirectoryEntry) × EntrySet}
      (hp : u.consume = p) : p.2.secondaryLeft = u.secondaryLeft - 1 := by
    subst hp
    unfold EntrySet.consume
    simp only
    split_ifs <;> rfl
  unfold EntrySet.push at h
  by_cases hprim : byteAt x.raw 0 = 0x85
  · rw [if_pos hprim]
    split_ifs at h with hlen hbad
    · cases h
    · cases h
    · cases h
      rw [not_or, not_not] at hbad
      exact ⟨hbad.1, rfl⟩
  · rw [if_neg hprim]
    split_ifs at h with hlen hz hign hstream hstreamBad hname hfull
    · cases h
    · cases h
      omega
    · cases h
      rfl
    · cases h
    · exact hconsume h
    · cases h
    · exact hconsume h
    · cases h
      rfl

/-- The decoder counts the slots to come. -/
theorem open_of_feed (h : feed done EntrySet.new = (.ok os, s)) : Open done s.secondaryLeft := by
  induction done using List.reverseRecOn generalizing os s with
  | nil =>
    cases h
    exact .nil
  | append_singleton done x ih =>
    obtain ⟨os', u, o, hd, hp⟩ := feed_snoc h
    have hopen := ih hd
    have hleft := push_left hp
    split_ifs at hleft with hx
    · rw [hleft.1] at hopen
      rw [hleft.2]
      exact .primary hopen hx
    · rw [hleft]
      rcases hk : u.secondaryLeft with _ | k
      · rw [hk] at hopen
        exact .stray hopen hx
      · rw [hk] at hopen
        exact .secondary hopen hx

lemma Open.unique {k l : ℕ} (h : Open done k) (h' : Open done l) : k = l := by
  induction h generalizing l with
  | nil =>
    generalize hd : ([] : List Slot) = d at h'
    cases h' with
    | nil => rfl
    | stray => simp at hd
    | primary => simp at hd
    | secondary => simp at hd
  | @stray done x _ hx ih =>
    generalize hd : done ++ [x] = d at h'
    cases h' with
    | nil => simp at hd
    | stray => rfl
    | primary _ hx' =>
      obtain ⟨rfl, rfl⟩ := List.append_singleton_inj.mp hd
      exact absurd hx' hx
    | secondary h' =>
      obtain ⟨rfl, rfl⟩ := List.append_singleton_inj.mp hd
      have := ih h'
      omega
  | @primary done x _ hx ih =>
    generalize hd : done ++ [x] = d at h'
    cases h' with
    | nil => simp at hd
    | stray _ hx' =>
      obtain ⟨rfl, rfl⟩ := List.append_singleton_inj.mp hd
      exact absurd hx hx'
    | primary =>
      obtain ⟨rfl, rfl⟩ := List.append_singleton_inj.mp hd
      rfl
    | secondary _ hx' =>
      obtain ⟨rfl, rfl⟩ := List.append_singleton_inj.mp hd
      exact absurd hx hx'
  | @secondary done x k _ hx ih =>
    generalize hd : done ++ [x] = d at h'
    cases h' with
    | nil => simp at hd
    | stray h' =>
      obtain ⟨rfl, rfl⟩ := List.append_singleton_inj.mp hd
      have := ih h'
      omega
    | primary _ hx' =>
      obtain ⟨rfl, rfl⟩ := List.append_singleton_inj.mp hd
      exact absurd hx' hx
    | secondary h' =>
      obtain ⟨rfl, rfl⟩ := List.append_singleton_inj.mp hd
      have := ih h'
      omega

/-! ### What is yielded -/

/-- `done` ends with the set of `e`, whose primary entry stands between sets. -/
def EndsInSet (done : List Slot) (e : DirectoryEntry) : Prop :=
  ∃ pre prim stream names, done = pre ++ prim :: stream :: names ∧ Open pre 0 ∧
    IsSet prim stream names ∧ e = groupEntry prim stream names

lemma parsed_of_feed (hlen : ∀ y ∈ done, y.raw.length = 32)
    (h : feed done EntrySet.new = (.ok os, s)) : Parsed done s := by
  induction done using List.reverseRecOn generalizing os s with
  | nil =>
    cases h
    exact .idle rfl
  | append_singleton done x ih =>
    obtain ⟨os', u, o, hd, hp⟩ := feed_snoc h
    have hlen' : ∀ y ∈ done, y.raw.length = 32 := fun y hy => hlen y (List.mem_append_left _ hy)
    have hsound := push_sound (x := x) (ih hlen' hd) hlen' (hlen x (by simp))
    rw [hp] at hsound
    rcases o with _ | entry
    · exact hsound
    · exact .idle hsound.1

/-- **Soundness.** What is yielded is the entry of a set. -/
theorem ends_of_push {e : DirectoryEntry} (hlen : ∀ y ∈ done ++ [x], y.raw.length = 32)
    (h : feed done EntrySet.new = (.ok os, s))
    (hp : (EntrySet.push x.raw x.loc s).1 = .ok (some e)) : EndsInSet (done ++ [x]) e := by
  have hlen' : ∀ y ∈ done, y.raw.length = 32 := fun y hy => hlen y (List.mem_append_left _ hy)
  have hsound := push_sound (x := x) (parsed_of_feed hlen' h) hlen' (hlen x (by simp))
  rw [run_eq hp] at hsound
  obtain ⟨-, pre, prim, stream, names, hends, hset, he⟩ := hsound
  obtain ⟨front, hfront⟩ := front_of_ends hends
  obtain ⟨os1, u, hprim⟩ := feed_front (hfront ▸ h)
  obtain ⟨os2, v, o, hpre, hpush⟩ := feed_snoc hprim
  have hleft := push_left hpush
  rw [if_pos hset.primary] at hleft
  have hopen := open_of_feed hpre
  rw [hleft.1] at hopen
  exact ⟨pre, prim, stream, names, hends, hopen, hset, he.trans (IsSet.entryOf_group hset)⟩

lemma feed_names (h : Expects s (names ++ [x])) :
    feed names s = (.ok (List.replicate names.length none), afterNames s names) ∧
      Expects (afterNames s names) [x] := by
  induction names generalizing s with
  | nil => exact ⟨rfl, h⟩
  | cons y names ih =>
    have hne : names ++ [x] ≠ [] := by simp
    obtain ⟨hfeed, hexp⟩ := ih (h.tail hne)
    refine ⟨?_, hexp⟩
    rw [feed, bind_ok (push_more h hne), bind_ok hfeed]
    rfl

lemma feed_set (h : IsSet prim stream (names ++ [x])) (hidle : s.secondaryLeft = 0) :
    feed (prim :: stream :: names) s = (.ok (List.replicate (names.length + 2) none),
      afterNames (afterStream prim stream) names) := by
  obtain ⟨hfeed, -⟩ := feed_names h.expects
  rw [feed, bind_ok (push_primary h hidle), feed, bind_assoc, bind_ok (push_stream h), bind_assoc,
    bind_ok hfeed]
  rfl

/-- **Completeness.** The entry of a set is yielded at its last slot. -/
theorem push_of_ends {e : DirectoryEntry} (h : feed done EntrySet.new = (.ok os, s))
    (hends : EndsInSet (done ++ [x]) e) : (EntrySet.push x.raw x.loc s).1 = .ok (some e) := by
  obtain ⟨pre, prim, stream, names, hdone, hopen, hset, rfl⟩ := hends
  obtain ⟨init, y, rfl⟩ : ∃ init y, names = init ++ [y] :=
    ⟨names.dropLast, names.getLast hset.names_ne, (List.dropLast_append_getLast _).symm⟩
  have hsplit : done ++ [x] = (pre ++ prim :: stream :: init) ++ [y] := by rw [hdone]; simp
  obtain ⟨rfl, rfl⟩ := List.append_singleton_inj.mp hsplit
  obtain ⟨os1, u, hpre⟩ := feed_front h
  have hidle : u.secondaryLeft = 0 := (open_of_feed hpre).unique hopen
  rw [feed_append, bind_ok hpre, bind_ok (feed_set hset hidle)] at h
  cases h
  rw [push_last (feed_names hset.expects).2, ← afterNames_snoc]
  exact congrArg (fun e => Outcome.ok (some e)) (IsSet.entryOf_group hset)

/-! ### The arrays of an entry -/

/-- The decoder behind slots, whatever it has returned at them. -/
def after (slots : List Slot) (s : EntrySet) : EntrySet :=
  slots.foldl (fun s x => (EntrySet.push x.raw x.loc s).2) s

/-- `push` takes over the slot as a name entry. -/
def TakesName (raw : List UInt8) (s : EntrySet) : Prop :=
  s.secondaryLeft ≠ 0 ∧ s.ignored = false ∧ byteAt raw 0 = 0xc1 ∧ s.streamSeen = true ∧
    s.nameWritten < s.entry.nameLen ∧ s.entry.entryCount < 19

/-- `push` takes over the slot as a stream extension. -/
def TakesStream (raw : List UInt8) (s : EntrySet) : Prop :=
  s.secondaryLeft ≠ 0 ∧ s.ignored = false ∧ byteAt raw 0 = 0xc0 ∧ s.streamSeen = false ∧
    s.entry.entryCount = 1

/-- The places at which `push` writes a locator or a unit of the name are places of the arrays. -/
structure InBounds (raw : List UInt8) (s : EntrySet) : Prop where
  locators : s.entry.entryLocs.length = 19
  name : s.entry.name.length = 255
  stream : TakesStream raw s → s.entry.entryCount < s.entry.entryLocs.length
  nameEntry : TakesName raw s → s.entry.entryCount < s.entry.entryLocs.length
  units : TakesName raw s → ∀ i < 15, s.nameWritten + i < s.entry.nameLen →
    s.nameWritten + i < s.entry.name.length

/-- The arrays have their lengths, and the name is no longer than its array. -/
structure Sized (e : DirectoryEntry) : Prop where
  locators : e.entryLocs.length = 19
  name : e.name.length = 255
  nameLen : e.nameLen ≤ 255

lemma Sized.push {raw : List UInt8} {loc : EntryLocator} (h : Sized s.entry) :
    Sized (EntrySet.push raw loc s).2.entry := by
  have hconsume {u : EntrySet} (hu : Sized u.entry) : Sized u.consume.2.entry := by
    unfold EntrySet.consume
    simp only
    split_ifs <;> exact hu
  have hbyte : byteAt raw 3 ≤ 255 := nameLen_le ⟨raw, loc⟩
  have hstream : Sized (s.takeStream raw loc).entry := by
    refine ⟨?_, h.name, hbyte⟩
    simp only [EntrySet.takeStream, EntrySet.record, List.length_set]
    exact h.locators
  unfold EntrySet.push
  split_ifs with hlen hprim hbad hz hign hs hsb hname hfull
  · exact h
  · exact h
  · refine ⟨?_, List.length_replicate, Nat.zero_le _⟩
    change (noLocators.set 0 loc).length = 19
    rw [List.length_set]
    rfl
  · exact h
  · exact h
  · exact hstream
  · exact hconsume hstream
  · exact h
  · refine hconsume ⟨?_, ?_, h.nameLen⟩
    · simp only [EntrySet.takeName, EntrySet.record, List.length_set]
      exact h.locators
    · have hnl := h.nameLen
      have hunits := unitsOf_length raw
      simp only [EntrySet.takeName, EntrySet.record]
      rw [overlay_length, h.name]
      rw [h.name, List.length_take]
      omega
  · exact h

lemma Sized.after (h : Sized s.entry) (slots : List Slot) :
    Sized (Grammar.after slots s).entry := by
  induction slots generalizing s with
  | nil => exact h
  | cons x slots ih => exact ih h.push

lemma Sized.inBounds {raw : List UInt8} (h : Sized s.entry) : InBounds raw s := by
  have hloc := h.locators
  have hname := h.name
  have hlen := h.nameLen
  refine ⟨hloc, hname, fun ht => ?_, fun ht => ?_, fun _ i _ hi => ?_⟩
  · have := ht.2.2.2.2
    omega
  · have := ht.2.2.2.2.2
    omega
  · omega

/-! ### A decoder between sets -/

lemma feed_alike (h : Alike s t) : (feed slots s).1 = (feed slots t).1 := by
  induction slots generalizing s t with
  | nil => rfl
  | cons x slots ih =>
    obtain ⟨hout, hnext⟩ := push_alike h x.raw x.loc
    simp only [feed, bind_apply]
    rcases hs : EntrySet.push x.raw x.loc s with ⟨o, u⟩
    rcases ht : EntrySet.push x.raw x.loc t with ⟨o', v⟩
    rw [hs, ht] at hout hnext
    simp only at hout hnext
    subst hout
    have hrest := ih hnext
    rcases o with o | _ | _
    · simp only
      rcases hu : feed slots u with ⟨p, u'⟩
      rcases hv : feed slots v with ⟨q, v'⟩
      rw [hu, hv] at hrest
      simp only at hrest
      subst hrest
      rcases p with _ | _ | _ <;> rfl
    · rfl
    · rfl

/-- **The decoder accepts exactly the sets of its grammar**, whatever slots it is fed; it writes at
no place beyond its arrays, and between sets it goes on like a new one. -/
theorem decoder_accepts (slots : List Slot) (hlen : ∀ x ∈ slots, x.raw.length = 32) :
    (∀ done x rest, slots = done ++ x :: rest →
      InBounds x.raw (after done EntrySet.new) ∧
        (EntrySet.push x.raw x.loc (after done EntrySet.new)).1 ≠ .panic) ∧
    (∀ done x rest os s, slots = done ++ x :: rest → feed done EntrySet.new = (.ok os, s) →
      ∀ e, (EntrySet.push x.raw x.loc s).1 = .ok (some e) ↔ EndsInSet (done ++ [x]) e) ∧
    ∀ s : EntrySet, s.secondaryLeft = 0 → (feed slots s).1 = (feed slots EntrySet.new).1 := by
  refine ⟨fun done x rest hslots => ⟨?_, ?_⟩, fun done x rest os s hslots hfeed e => ?_,
    fun s hs => feed_alike (Or.inr ⟨hs, rfl⟩)⟩
  · have hnew : Sized EntrySet.new.entry :=
      ⟨List.length_replicate, List.length_replicate, Nat.zero_le _⟩
    exact (hnew.after done).inBounds
  · rcases push_cases (hlen x (by simp [hslots])) x.loc (after done EntrySet.new) with ⟨o, ho⟩ | ho
    · rw [ho]
      simp
    · rw [ho]
      simp
  · have hlen' : ∀ y ∈ done ++ [x], y.raw.length = 32 := fun y hy =>
      hlen y (by rw [hslots]; simp at hy ⊢; tauto)
    exact ⟨ends_of_push hlen' hfeed, push_of_ends hfeed⟩

/-- The slots of the set of an empty file `A`, behind a slot which is not in use. -/
def fileSlots : List Slot :=
  ⟨5 :: List.replicate 31 0, ⟨26, 0⟩⟩ :: (List.range 3).map fun k =>
    ⟨((Listing.setBytes (Mutation.newFileSet [65]) 3).drop (32 * k)).take 32, ⟨26, 32 * (k + 1)⟩⟩

lemma fileSlots_length : ∀ x ∈ fileSlots, x.raw.length = 32 := by decide

theorem decoder_accepts_file : (feed fileSlots { EntrySet.new with ignored := true }).1 =
    (feed fileSlots EntrySet.new).1 :=
  (decoder_accepts fileSlots fileSlots_length).2.2 { EntrySet.new with ignored := true } rfl

example : (feed fileSlots EntrySet.new).1 = .ok [none, none, none,
    some (Listing.splitEntry (Mutation.newFileSet [65]) false 26 1)] := by decide +kernel

end ExfatEmbedded.Grammar

import ExfatEmbedded.Layout
import ExfatEmbedded.Slots

/-!
What the owners of clusters say of the tree: an entry set has one place, and a directory one entry.
-/

namespace ExfatEmbedded.Ownership

open ExfatEmbedded.Library Exec ExfatEmbedded.Core ExfatEmbedded.Entry ExfatEmbedded.Lookup
open ExfatEmbedded.Reading ExfatEmbedded.Scan ExfatEmbedded.Sets ExfatEmbedded.Media
open ExfatEmbedded.Tree ExfatEmbedded.Commit ExfatEmbedded.Layout ExfatEmbedded.Slots

/-! ### Sets in one sequence of slots -/

section Sets

variable {slots pre pre' post post' names names' : List Slot} {prim prim' stream stream' : Slot}

lemma IsSet.type_ne (h : IsSet prim stream names) :
    ∀ x ∈ stream :: names, byteAt x.raw 0 ≠ 0x85 := by
  intro x hx
  rcases List.mem_cons.mp hx with rfl | hx
  · rw [h.streamType]
    decide
  · rw [h.nameType x hx]
    decide

lemma sets_apart (h : IsSet prim stream names) (h' : IsSet prim' stream' names')
    (heq : pre ++ (prim :: stream :: names ++ post) = pre' ++ (prim' :: stream' :: names' ++ post'))
    (hlt : pre.length < pre'.length) : pre.length + (names.length + 2) ≤ pre'.length := by
  by_contra hle
  have hat := congrArg (fun l => l[pre'.length]?) heq
  obtain ⟨k, hk⟩ : ∃ k, pre'.length = pre.length + (k + 1) :=
    ⟨pre'.length - pre.length - 1, by omega⟩
  have hright : (pre' ++ (prim' :: stream' :: names' ++ post'))[pre'.length]? = some prim' := by
    rw [List.getElem?_append_right le_rfl, Nat.sub_self]
    rfl
  have hkeep : k < (stream :: names).length := by
    rw [List.length_cons]
    omega
  have hleft : (pre ++ (prim :: stream :: names ++ post))[pre'.length]? =
      (stream :: names)[k]? := by
    rw [hk, List.getElem?_append_right (by omega), Nat.add_sub_cancel_left, List.cons_append,
      List.getElem?_cons_succ, List.getElem?_append_left hkeep]
  rw [hleft, hright] at hat
  exact IsSet.type_ne h prim' (List.mem_of_getElem? hat) h'.primary

lemma sets_same (h : IsSet prim stream names) (h' : IsSet prim' stream' names')
    (heq : pre ++ (prim :: stream :: names ++ post) = pre' ++ (prim' :: stream' :: names' ++ post'))
    (hlen : pre.length = pre'.length) :
    pre = pre' ∧ prim = prim' ∧ stream = stream' ∧ names = names' ∧ post = post' := by
  obtain ⟨hpre, hrest⟩ := List.append_inj heq hlen
  simp only [List.cons_append, List.cons.injEq] at hrest
  obtain ⟨rfl, rfl, hnames⟩ := hrest
  have hcount := h.count
  have hcount' := h'.count
  obtain ⟨hn, hp⟩ := List.append_inj hnames (by omega)
  exact ⟨hpre, rfl, rfl, hn, hp⟩

lemma sets_behind (h : IsSet prim stream names) (h' : IsSet prim' stream' names')
    (heq : pre ++ (prim :: stream :: names ++ post) = pre' ++ (prim' :: stream' :: names' ++ post'))
    (hlt : pre.length < pre'.length) : ∃ mid, pre' = pre ++ (prim :: stream :: names) ++ mid ∧
      post = mid ++ (prim' :: stream' :: names' ++ post') := by
  have hle := sets_apart h h' heq hlt
  have hpre : pre ++ (prim :: stream :: names) <+: pre' := by
    apply List.prefix_of_prefix_length_le ⟨post, by rw [List.append_assoc, heq]⟩
      (List.prefix_append _ _)
    simp only [List.length_append, List.length_cons]
    omega
  obtain ⟨mid, rfl⟩ := hpre
  rw [List.append_assoc, List.append_assoc] at heq
  exact ⟨mid, rfl, List.append_cancel_left (List.append_cancel_left heq)⟩

/-- Two sets of one sequence of slots are one, or one of them ends before the other begins. -/
lemma sets_order (h : IsSet prim stream names) (h' : IsSet prim' stream' names')
    (heq : pre ++ (prim :: stream :: names ++ post) =
      pre' ++ (prim' :: stream' :: names' ++ post')) :
    (∃ mid, pre' = pre ++ (prim :: stream :: names) ++ mid ∧
      post = mid ++ (prim' :: stream' :: names' ++ post')) ∨
    (pre = pre' ∧ prim = prim' ∧ stream = stream' ∧ names = names' ∧ post = post') ∨
    ∃ mid, pre = pre' ++ (prim' :: stream' :: names') ++ mid ∧
      post' = mid ++ (prim :: stream :: names ++ post) := by
  rcases Nat.lt_trichotomy pre.length pre'.length with hlt | hlen | hgt
  · exact .inl (sets_behind h h' heq hlt)
  · exact .inr (.inl (sets_same h h' heq hlen))
  · exact .inr (.inr (sets_behind h' h heq.symm hgt))

lemma setIn_unique (hnodup : (slots.map Slot.loc).Nodup) (h : SetIn slots prim stream names)
    (h' : SetIn slots prim' stream' names') (hloc : prim.loc = prim'.loc) :
    prim = prim' ∧ stream = stream' ∧ names = names' := by
  obtain ⟨pre, post, hslots⟩ := h.inside
  obtain ⟨pre', post', hslots'⟩ := h'.inside
  rw [List.append_assoc] at hslots hslots'
  have hat : (slots.map Slot.loc)[pre.length]? = some prim.loc := by
    rw [← hslots, List.getElem?_map, List.getElem?_append_right le_rfl, Nat.sub_self]
    rfl
  have hat' : (slots.map Slot.loc)[pre'.length]? = some prim'.loc := by
    rw [← hslots', List.getElem?_map, List.getElem?_append_right le_rfl, Nat.sub_self]
    rfl
  have hlen : pre.length = pre'.length := by
    have hlt := (List.getElem?_eq_some_iff.mp hat).1
    exact (List.getElem?_inj hlt hnodup).mp (by rw [hat, hat', hloc])
  obtain ⟨-, hprim, hstream, hnames, -⟩ :=
    sets_same h.isSet h'.isSet (hslots.trans hslots'.symm) hlen
  exact ⟨hprim, hstream, hnames⟩

end Sets

/-! ### Owners -/

section Owners

variable {ζ : Horizon} {vol : Volume} {d : Sectors} {own : ℕ → Option Owner} {D P : Dir}
  {e e' : DirectoryEntry} {m : ℕ}

variable (hs : Sound vol.geometry m) (h : Owners ζ vol d own)

include hs h

lemma nodup_slots (hD : InTree ζ vol.geometry d D) :
    ((D.slots ζ vol.geometry d).map Slot.loc).Nodup := by
  have howned := h.dir hD
  refine List.Nodup.sublist (Horizon.cut_prefix.map Slot.loc).sublist ?_
  exact nodup_extentLocs hs (fun j hj => howned.heap _ (nthCluster_mem hj)) howned.nodup

lemma owner_eq (hD : InTree ζ vol.geometry d D) (hP : InTree ζ vol.geometry d P) {x y : Slot}
    (hx : x ∈ D.slots ζ vol.geometry d) (hy : y ∈ P.slots ζ vol.geometry d)
    (hloc : x.loc.lba = y.loc.lba) : D.owner = P.owner := by
  have hdir := h.dir hD
  have hdir' := h.dir hP
  obtain ⟨-, c, hc, hplaced⟩ := extentSlots_slotOn hs (Horizon.mem_of_cut hx)
  obtain ⟨-, c', hc', hplaced'⟩ := extentSlots_slotOn hs (Horizon.mem_of_cut hy)
  have hin' := hplaced'.inCluster
  rw [← hloc] at hin'
  have heq := hplaced.inCluster.unique (hs.inHeap_iff.mp (hdir.heap c hc)).1
    (hs.inHeap_iff.mp (hdir'.heap c' hc')).1 hin'
  subst heq
  have hown := hdir.own c hc
  rw [hdir'.own c hc'] at hown
  exact (Option.some.inj hown).symm

omit hs h in
lemma primary_slot {slots : List Slot} (he : HasEntry slots e) :
    ∃ x ∈ slots, x.loc = e.primary := by
  obtain ⟨prim, stream, names, hset, rfl⟩ := he
  exact ⟨prim, hset.inside.subset (by simp), (entryOf_primary ..).symm⟩

lemma entry_eq (hD : InTree ζ vol.geometry d D) (he : HasEntry (D.slots ζ vol.geometry d) e)
    (he' : HasEntry (D.slots ζ vol.geometry d) e') (hprim : e.primary = e'.primary) : e = e' := by
  obtain ⟨prim, stream, names, hset, rfl⟩ := he
  obtain ⟨prim', stream', names', hset', rfl⟩ := he'
  rw [entryOf_primary, entryOf_primary] at hprim
  obtain ⟨rfl, rfl, rfl⟩ := setIn_unique (nodup_slots hs h hD) hset hset' hprim
  rfl

/-- **A directory is known by its owner.** -/
theorem dir_of_owner (hD : InTree ζ vol.geometry d D) (hP : InTree ζ vol.geometry d P)
    (howner : D.owner = P.owner) : D = P := by
  induction hD generalizing P with
  | root heap ended =>
    cases hP with
    | root heap' ended' => rw [root_count hs heap ended heap' ended']
    | child parent entry isDir => cases howner
  | @child D e dir parent entry isDir ih =>
    cases hP with
    | root heap' ended' => cases howner
    | @child P e' dir' parent' entry' isDir' =>
      have hprim : e.primary = e'.primary := Owner.entry.inj howner
      obtain ⟨x, hx, hxloc⟩ := primary_slot entry
      obtain ⟨y, hy, hyloc⟩ := primary_slot entry'
      have hparents := owner_eq hs h parent parent' hx hy (by rw [hxloc, hyloc, hprim])
      obtain rfl := ih parent' hparents
      obtain rfl := entry_eq hs h parent entry entry' hprim
      rw [isDir] at isDir'
      cases isDir'
      rfl

lemma dir_of_slot (hD : InTree ζ vol.geometry d D) (hP : InTree ζ vol.geometry d P) {x y : Slot}
    (hx : x ∈ D.slots ζ vol.geometry d) (hy : y ∈ P.slots ζ vol.geometry d)
    (hloc : x.loc.lba = y.loc.lba) : D = P :=
  dir_of_owner hs h hD hP (owner_eq hs h hD hP hx hy hloc)

/-- **An entry of the tree is known by where it is.** -/
theorem entry_unique (hD : InTree ζ vol.geometry d D) (he : HasEntry (D.slots ζ vol.geometry d) e)
    (hP : InTree ζ vol.geometry d P) (he' : HasEntry (P.slots ζ vol.geometry d) e')
    (hprim : e.primary = e'.primary) : D = P ∧ e = e' := by
  obtain ⟨x, hx, hxloc⟩ := primary_slot he
  obtain ⟨y, hy, hyloc⟩ := primary_slot he'
  obtain rfl := dir_of_slot hs h hD hP hx hy (by rw [hxloc, hyloc, hprim])
  exact ⟨rfl, entry_eq hs h hD he he' hprim⟩

lemma file_apart (hP : InTree ζ vol.geometry d P) (he : HasEntry (P.slots ζ vol.geometry d) e)
    (hfile : e.isDirectory = false) (hD : InTree ζ vol.geometry d D) {c : ℕ}
    (hc : c ∈ D.clusters vol.geometry d) : c ∉ streamOf vol.geometry d e := by
  intro hmem
  have hown := (h.dir hD).own c hc
  rw [(h.entry P e hP he).own c hmem] at hown
  have howner := Option.some.inj hown
  cases hD with
  | root heap ended => cases howner
  | @child D y dir parent entry isDir =>
    obtain ⟨-, rfl⟩ := entry_unique hs h hP he parent entry (Owner.entry.inj howner)
    unfold DirectoryEntry.directory at isDir
    rw [hfile] at isDir
    cases isDir

omit hs in
lemma upcase_apart (hP : InTree ζ vol.geometry d P) (he : HasEntry (P.slots ζ vol.geometry d) e)
    {c : ℕ}
    (hc : c ∈ upcaseClusters vol d) : c ∉ streamOf vol.geometry d e := by
  intro hmem
  have hown := h.upcase.own c hc
  rw [(h.entry P e hP he).own c hmem] at hown
  cases hown

end Owners

/-! ### Well-formed up to the end markers -/

section Live

variable {vol : Volume} {s : Machine} {g : Geometry} {d : Sectors} {D : Dir}
  {slots names : List Slot} {prim stream : Slot}

lemma setIn_live (hnodup : (slots.map Slot.loc).Nodup) (h : SetIn slots prim stream names)
    (hprim : prim ∈ Horizon.live.cut slots) :
    SetIn (Horizon.live.cut slots) prim stream names := by
  obtain ⟨pre, post, hslots⟩ := h.inside
  obtain ⟨front, back, hfront⟩ := List.append_of_mem hprim
  obtain ⟨rest, hrest⟩ : Horizon.live.cut slots <+: slots := Horizon.cut_prefix
  have hlive : ∀ x ∈ front, byteAt x.raw 0 ≠ 0 := fun x hx =>
    Horizon.inUse_of_mem (hfront ▸ List.mem_append_left _ hx)
  -- there is one place for the primary entry
  have hat : (slots.map Slot.loc)[pre.length]? = some prim.loc := by
    rw [← hslots, List.append_assoc, List.getElem?_map, List.getElem?_append_right le_rfl,
      Nat.sub_self]
    rfl
  have hat' : (slots.map Slot.loc)[front.length]? = some prim.loc := by
    rw [← hrest, hfront, List.append_assoc, List.getElem?_map, List.getElem?_append_right le_rfl,
      Nat.sub_self]
    rfl
  have hlen : pre.length = front.length :=
    (List.getElem?_inj (List.getElem?_eq_some_iff.mp hat).1 hnodup).mp (hat.trans hat'.symm)
  have hpre : pre = front := by
    have heq := hslots.trans hrest.symm
    rw [hfront, List.append_assoc, List.append_assoc] at heq
    exact (List.append_inj heq hlen).1
  have hcut : pre ++ (prim :: stream :: names) <+: Horizon.live.cut slots := by
    refine Horizon.prefix_cut ⟨post, hslots⟩ fun x hx => ?_
    rcases List.mem_append.mp hx with hx | hx
    · exact hlive x (hpre ▸ hx)
    rcases List.mem_cons.mp hx with rfl | hx
    · rw [h.isSet.primary]
      decide
    rcases List.mem_cons.mp hx with rfl | hx
    · rw [h.isSet.streamType]
      decide
    · rw [h.isSet.nameType x hx]
      decide
  exact ⟨h.isSet, (List.suffix_append pre _).isInfix.trans hcut.isInfix⟩

lemma hasEntry_whole {e : DirectoryEntry} (h : HasEntry (D.slots .live g d) e) :
    HasEntry (D.slots .whole g d) e := h.mono Horizon.cut_prefix.isInfix

lemma inTree_whole (h : InTree .live g d D) : InTree .whole g d D := by
  induction h with
  | root heap ended => exact .root heap ended
  | child parent entry isDir ih => exact .child ih (hasEntry_whole entry) isDir

/-- **A volume well-formed with what is behind its end markers is well-formed up to them.** -/
theorem wellFormed_live (h : WellFormed .whole vol s) : WellFormed .live vol s := by
  obtain ⟨own, howners⟩ := id h.owners
  obtain ⟨n, hn⟩ := id h.rootEnds
  refine ⟨h.mounted, h.scratch, h.upcaseValid, h.covers, h.tally, ⟨own, howners.bitmap,
    howners.upcase, fun n hn => howners.root n (inTree_whole hn),
    fun D e hD he => howners.entry D e (inTree_whole hD) (hasEntry_whole he)⟩, h.bitmapEnds,
    h.upcaseEnds, ⟨n, ?_⟩, fun D hD x hx htype => ?_,
    fun D e hD he => h.entryEnds D e (inTree_whole hD) (hasEntry_whole he)⟩
  · generalize hroot : Dir.root vol.geometry n = R at hn
    cases hn with
    | root heap ended => exact .root heap ended
    | child parent entry isDir =>
      have howner := congrArg Dir.owner hroot
      cases howner
  · obtain ⟨stream, names, hset⟩ := h.decodes D (inTree_whole hD) x (Horizon.mem_of_cut hx) htype
    exact ⟨stream, names, setIn_live (nodup_slots h.sound howners (inTree_whole hD)) hset hx⟩

end Live

end ExfatEmbedded.Ownership

import ExfatEmbedded.Growth

/-!
A volume after one of its files got another stream.

The directories are those of before, each of their entries but that of the file is as it was, and
the volume stays well-formed.
-/

namespace ExfatEmbedded.Restreaming

open ExfatEmbedded.Library Exec ExfatEmbedded.Core ExfatEmbedded.Entry ExfatEmbedded.Allocation
open ExfatEmbedded.Lookup ExfatEmbedded.FileIo ExfatEmbedded.Reading ExfatEmbedded.Scan
open ExfatEmbedded.Sets ExfatEmbedded.ReadSafety ExfatEmbedded.MountSafety
open ExfatEmbedded.StreamSafety ExfatEmbedded.Media ExfatEmbedded.Writing ExfatEmbedded.Tree
open ExfatEmbedded.Commit ExfatEmbedded.Release ExfatEmbedded.Layout ExfatEmbedded.Listing
open ExfatEmbedded.Slots ExfatEmbedded.Codec ExfatEmbedded.Search ExfatEmbedded.Ownership
open ExfatEmbedded.Replacing ExfatEmbedded.Readback ExfatEmbedded.Truncating ExfatEmbedded.Decoding
open ExfatEmbedded.Grammar ExfatEmbedded.Mutation

/-! ### Another set between the same slots -/

section Parts

variable {front back names names' : List Slot} {prim prim' stream stream' : Slot}
  {x : DirectoryEntry}

lemma setIn_cases (h : IsSet prim stream names)
    (hset : SetIn (front ++ (prim :: stream :: names ++ back)) prim' stream' names') :
    (prim' = prim ∧ stream' = stream ∧ names' = names) ∨
      SetIn front prim' stream' names' ∨ SetIn back prim' stream' names' := by
  obtain ⟨hset', pre, post, hslots⟩ := hset
  rw [List.append_assoc] at hslots
  rcases sets_order hset' h hslots with ⟨mid, rfl, -⟩ | ⟨-, rfl, rfl, rfl, -⟩ | ⟨mid, -, rfl⟩
  · exact .inr (.inl ⟨hset', pre, mid, rfl⟩)
  · exact .inl ⟨rfl, rfl, rfl⟩
  · exact .inr (.inr ⟨hset', mid, post, by rw [List.append_assoc]⟩)

lemma hasEntry_cases (h : IsSet prim stream names)
    (he : HasEntry (front ++ (prim :: stream :: names ++ back)) x) :
    x = entryOf prim stream names ∨ HasEntry front x ∨ HasEntry back x := by
  obtain ⟨prim', stream', names', hset, rfl⟩ := he
  rcases setIn_cases h hset with ⟨rfl, rfl, rfl⟩ | hin | hin
  · exact .inl rfl
  · exact .inr (.inl ⟨_, _, _, hin, rfl⟩)
  · exact .inr (.inr ⟨_, _, _, hin, rfl⟩)

lemma hasEntry_front (he : HasEntry front x) : HasEntry (front ++ back) x :=
  he.mono (List.prefix_append _ _).isInfix

lemma hasEntry_back (he : HasEntry back x) :
    HasEntry (front ++ (prim :: stream :: names ++ back)) x := by
  refine he.mono (List.IsSuffix.isInfix ⟨front ++ (prim :: stream :: names), ?_⟩)
  simp

lemma hasEntry_middle (h : IsSet prim stream names) :
    HasEntry (front ++ (prim :: stream :: names ++ back)) (entryOf prim stream names) :=
  ⟨prim, stream, names, ⟨h, List.append_assoc front _ back ▸ List.infix_append front _ back⟩, rfl⟩

end Parts

/-! ### The tree behind a replacement -/

section Trees

variable {vol : Volume} {s t : Machine} {e e' x : DirectoryEntry} {D P : Dir}

/-- The slots of the directory of the file, before and behind the replacement. -/
structure Halves (s t : List Slot) (e e' : DirectoryEntry) (front back : List Slot) : Prop where
  before : ∃ prim stream names, IsSet prim stream names ∧ e = entryOf prim stream names ∧
    s = front ++ (prim :: stream :: names ++ back)
  after : ∃ prim stream names, IsSet prim stream names ∧ e' = entryOf prim stream names ∧
    t = front ++ (prim :: stream :: names ++ back)

variable (hwf : WellFormed .whole vol s) (h : Replaced .whole vol s t e e')
  (hP : InTree .whole vol.geometry s.device.sectors P)
  (he : HasEntry (P.slots .whole vol.geometry s.device.sectors) e)

include hwf h in
lemma slots_map (hD : InTree .whole vol.geometry s.device.sectors D) :
    D.slots .whole vol.geometry t.device.sectors =
      (D.slots .whole vol.geometry s.device.sectors).map (reread t) := by
  apply extentSlots_map hwf.sound
  intro j hj
  exact h.clusterOf_eq hD hj.le

include hwf h hP he

lemma slots_other (hD : InTree .whole vol.geometry s.device.sectors D) (hne : D ≠ P) :
    D.slots .whole vol.geometry t.device.sectors = D.slots .whole vol.geometry
    s.device.sectors := by
  obtain ⟨own, howners⟩ := hwf.owners
  rw [slots_map hwf h hD]
  refine h.reread_eq hD (fun _ hx => hx) fun x hx hin => hne ?_
  obtain ⟨y, hy, hloc⟩ := List.mem_map.mp (he.locs.1 hin)
  exact dir_of_slot hwf.sound howners hD hP hx hy (by rw [hloc])

lemma halves : ∃ front back, Halves (P.slots .whole vol.geometry s.device.sectors)
    (P.slots .whole vol.geometry t.device.sectors) e e' front back := by
  obtain ⟨own, howners⟩ := hwf.owners
  have hnodup := nodup_slots hwf.sound howners hP
  obtain ⟨prim, stream, names, hset, hentry⟩ := id he
  obtain ⟨front, back, hslots⟩ := hset.inside
  obtain ⟨prim', stream', names', hslots', hset', hentry'⟩ := h.set
  have hlocs : e.entryLocs.take e.entryCount = (prim :: stream :: names).map Slot.loc := by
    rw [hentry, entryOf_take_locs hset.isSet]
  rw [List.append_assoc] at hslots
  refine ⟨front, back, ⟨prim, stream, names, hset.isSet, hentry, hslots.symm⟩,
    ⟨prim', stream', names', hset', hentry', ?_⟩⟩
  rw [← hslots, List.map_append, List.map_append] at hnodup
  obtain ⟨-, hrest, hfront⟩ := List.nodup_append.mp hnodup
  obtain ⟨-, -, hback⟩ := List.nodup_append.mp hrest
  have hmid : (prim :: stream :: names).map (reread t) = prim' :: stream' :: names' := by
    rw [← hslots', hlocs, List.map_map]
    rfl
  have hin : ∀ y ∈ front ++ back, y ∈ P.slots .whole vol.geometry s.device.sectors := by
    intro y hy
    rw [← hslots]
    simp only [List.mem_append] at hy ⊢
    tauto
  rw [slots_map hwf h hP, ← hslots, List.map_append, List.map_append, hmid,
    h.reread_eq hP (fun y hy => hin y (List.mem_append_left _ hy)) fun y hy hyL => ?_,
    h.reread_eq hP (fun y hy => hin y (List.mem_append_right _ hy)) fun y hy hyL => ?_]
  · rw [hlocs] at hyL
    exact hback _ hyL _ (List.mem_map_of_mem hy) rfl
  · rw [hlocs] at hyL
    exact hfront _ (List.mem_map_of_mem hy) _ (List.mem_append_left _ hyL) rfl

/-- **The entries of a directory** are those of before, with `e'` for `e`. -/
theorem hasEntry_iff (hD : InTree .whole vol.geometry s.device.sectors D) :
    HasEntry (D.slots .whole vol.geometry t.device.sectors) x ↔
      ∃ y, HasEntry (D.slots .whole vol.geometry s.device.sectors) y ∧ x = swapped e e' y := by
  obtain ⟨own, howners⟩ := hwf.owners
  by_cases hDP : D = P
  · subst hDP
    obtain ⟨front, back, ⟨prim, stream, names, hset, rfl, hslots⟩,
      ⟨prim', stream', names', hset', rfl, hslots'⟩⟩ := halves hwf h hD he
    have hnodup := nodup_slots hwf.sound howners hD
    rw [hslots] at he hnodup ⊢
    rw [hslots']
    simp only [List.map_append, List.map_cons] at hnodup
    obtain ⟨-, hrest, hfront⟩ := List.nodup_append.mp hnodup
    obtain ⟨-, -, hback⟩ := List.nodup_append.mp hrest
    -- an entry in front of the set or behind it is not the set's
    have hother : HasEntry front x ∨ HasEntry back x → x ≠ entryOf prim stream names := by
      rintro (hx | hx) rfl
      · obtain ⟨y, hy, hloc⟩ := primary_slot hx
        rw [entryOf_primary] at hloc
        exact hfront _ (List.mem_map_of_mem hy) prim.loc (by simp) hloc
      · obtain ⟨y, hy, hloc⟩ := primary_slot hx
        rw [entryOf_primary] at hloc
        exact hback prim.loc (by simp) _ (List.mem_map_of_mem hy) hloc.symm
    constructor
    · intro hx
      rcases hasEntry_cases hset' hx with rfl | hx | hx
      · exact ⟨_, hasEntry_middle hset, (if_pos rfl).symm⟩
      · exact ⟨x, hasEntry_front hx, (if_neg (hother (.inl hx))).symm⟩
      · exact ⟨x, hasEntry_back hx, (if_neg (hother (.inr hx))).symm⟩
    · rintro ⟨y, hy, rfl⟩
      unfold swapped
      split_ifs with hye
      · exact hasEntry_middle hset'
      · rcases hasEntry_cases hset hy with rfl | hy | hy
        · exact absurd rfl hye
        · exact hasEntry_front hy
        · exact hasEntry_back hy
  · rw [slots_other hwf h hP he hD hDP]
    have hne {y : DirectoryEntry} (hy : HasEntry (D.slots .whole vol.geometry s.device.sectors) y) :
        y ≠ e := by
      rintro rfl
      exact hDP (entry_unique hwf.sound howners hD hy hP he rfl).1
    constructor
    · intro hx
      exact ⟨x, hx, (if_neg (hne hx)).symm⟩
    · rintro ⟨y, hy, rfl⟩
      rwa [swapped, if_neg (hne hy)]

/-- **The directories of the tree** are those of before. -/
theorem inTree_iff (hdir : e'.isDirectory = false) :
    InTree .whole vol.geometry t.device.sectors D ↔
    InTree .whole vol.geometry s.device.sectors D := by
  have hnot {y : DirectoryEntry} {dir : Directory} (hy : y.isDirectory = false) :
      y.directory ≠ some dir := by
    unfold DirectoryEntry.directory
    simp [hy]
  constructor
  · intro hD
    induction hD with
    | @root n heap ended =>
      obtain ⟨m, hroot⟩ := hwf.rootEnds
      generalize hDir : Dir.root vol.geometry m = D at hroot
      cases hroot with
      | child parent entry isDir => cases congrArg Dir.owner hDir
      | @root k heap' ended' =>
        have hlink {i : ℕ} (hi : i ≤ k) : link vol.geometry t.device.sectors
            vol.geometry.rootCluster i = link vol.geometry s.device.sectors
              vol.geometry.rootCluster i := h.clusterOf_eq (.root heap' ended') hi
        have hcount := root_count hwf.sound heap ended (fun i hi => hlink hi.le ▸ heap' i hi)
          (hlink le_rfl ▸ ended')
        subst hcount
        exact .root heap' ended'
    | child parent entry isDir ih =>
      obtain ⟨y, hy, rfl⟩ := (hasEntry_iff hwf h hP he ih).mp entry
      have hye : y ≠ e := by
        rintro rfl
        rw [swapped, if_pos rfl] at isDir
        exact hnot hdir isDir
      rw [swapped, if_neg hye] at isDir ⊢
      exact .child ih hy isDir
  · intro hD
    induction hD with
    | @root n heap ended =>
      have hlink {i : ℕ} (hi : i ≤ n) : link vol.geometry t.device.sectors
          vol.geometry.rootCluster i = link vol.geometry s.device.sectors
            vol.geometry.rootCluster i := h.clusterOf_eq (.root heap ended) hi
      exact .root (fun i hi => (hlink hi.le).symm ▸ heap i hi) ((hlink le_rfl).symm ▸ ended)
    | @child D y dir parent entry isDir ih =>
      have hye : y ≠ e := by
        rintro rfl
        exact hnot h.file isDir
      have hentry := (hasEntry_iff hwf h hP he parent).mpr ⟨y, entry, rfl⟩
      rw [swapped, if_neg hye] at hentry
      exact .child ih hentry isDir

lemma decodes_replaced (hD : InTree .whole vol.geometry s.device.sectors D) :
    ∀ x ∈ D.slots .whole vol.geometry t.device.sectors, byteAt x.raw 0 = 0x85 →
      ∃ stream names, SetIn (D.slots .whole vol.geometry t.device.sectors) x stream names := by
  by_cases hDP : D = P
  swap
  · rw [slots_other hwf h hP he hD hDP]
    exact hwf.decodes D hD
  subst hDP
  obtain ⟨own, howners⟩ := hwf.owners
  have hnodup := List.Nodup.of_map _ (nodup_slots hwf.sound howners hD)
  have hdecodes := hwf.decodes D hD
  obtain ⟨front, back, ⟨prim, stream, names, hset, -, hslots⟩,
    ⟨prim', stream', names', hset', -, hslots'⟩⟩ := halves hwf h hD he
  rw [hslots] at hnodup hdecodes
  rw [hslots']
  intro x hx htype
  obtain ⟨-, hrest, hfront⟩ := List.nodup_append.mp hnodup
  obtain ⟨-, -, hback⟩ := List.nodup_append.mp hrest
  -- a slot beside the set begins a set beside it
  have hother (hx : x ∈ front ++ back) : ∃ stream names,
      SetIn (front ++ (prim' :: stream' :: names' ++ back)) x stream names := by
    obtain ⟨st, ns, hxset⟩ := hdecodes x (by simp only [List.mem_append] at hx ⊢; tauto) htype
    refine ⟨st, ns, ?_⟩
    rcases setIn_cases hset hxset with ⟨rfl, -, -⟩ | hin | hin
    · rcases List.mem_append.mp hx with hx | hx
      · exact absurd rfl (hfront x hx x (by simp))
      · exact absurd rfl (hback x (by simp) x hx)
    · exact ⟨hin.isSet, hin.inside.trans (List.prefix_append _ _).isInfix⟩
    · refine ⟨hin.isSet, hin.inside.trans (List.IsSuffix.isInfix
        ⟨front ++ (prim' :: stream' :: names'), ?_⟩)⟩
      simp
  rcases List.mem_append.mp hx with hx | hx
  · exact hother (List.mem_append_left _ hx)
  rcases List.mem_append.mp hx with hx | hx
  · rcases List.mem_cons.mp hx with rfl | hx
    · exact ⟨stream', names', hset', List.append_assoc front _ back ▸
        List.infix_append front _ back⟩
    · exact absurd htype (IsSet.type_ne hset' x hx)
  · exact hother (List.mem_append_right _ hx)

end Trees

/-! ### Another stream -/

section Restreams

variable {vol : Volume} {s t : Machine} {e x : DirectoryEntry} {D P : Dir} {f : File} {cs : List ℕ}
  {c : ℕ}

/-- From `s` to `t` the file `e` got the stream of the handle `f`, in the clusters `cs`: its own
clusters and free ones. Of the other clusters in use only the slots of its set were written. -/
structure Restreamed (vol : Volume) (s t : Machine) (e : DirectoryEntry) (f : File)
    (cs : List ℕ) : Prop where
  follows : Follows s t
  base : Base vol (bitmapClusters vol s.device.sectors) t
  names : Names f e
  clusters : clustersOfFile vol.geometry t.device.sectors f = cs
  ends : ChainEnds vol.geometry t.device.sectors f.firstCluster f.noFatChain
    (clustersFor vol.geometry f.dataLength)
  heap : ∀ c ∈ cs, vol.geometry.InHeap c
  nodup : cs.Nodup
  fresh : ∀ c ∈ cs, c ∈ streamOf vol.geometry s.device.sectors e ∨
    used vol.geometry (bitmapClusters vol s.device.sectors) s.device.sectors c = false
  used : ∀ c, Counted vol.geometry c →
    used vol.geometry (bitmapClusters vol s.device.sectors) t.device.sectors c =
      (used vol.geometry (bitmapClusters vol s.device.sectors) s.device.sectors c &&
        !decide (c ∈ streamOf vol.geometry s.device.sectors e) || decide (c ∈ cs))
  fat : ∀ c, vol.geometry.InHeap c →
    Media.used vol.geometry (bitmapClusters vol s.device.sectors) s.device.sectors c = true →
    c ∉ streamOf vol.geometry s.device.sectors e →
      fatEntry vol.geometry t.device.sectors c = fatEntry vol.geometry s.device.sectors c
  media : ∃ d, (∀ c, vol.geometry.InHeap c →
      Media.used vol.geometry (bitmapClusters vol s.device.sectors) s.device.sectors c = true →
      c ∉ bitmapClusters vol s.device.sectors → c ∉ cs →
        SameCluster vol.geometry s.device.sectors d c) ∧
    OnlySlots (e.entryLocs.take e.entryCount) d t.device.sectors
  set : ∃ prim stream names,
    (e.entryLocs.take e.entryCount).map (slotOn t.device.sectors) = prim :: stream :: names ∧
      IsSet prim stream names ∧ restream e f = entryOf prim stream names

/-- A cluster in use which is not of the file. -/
structure Other (vol : Volume) (s : Machine) (e : DirectoryEntry) (c : ℕ) : Prop where
  heap : vol.geometry.InHeap c
  used : used vol.geometry (bitmapClusters vol s.device.sectors) s.device.sectors c = true
  out : c ∉ streamOf vol.geometry s.device.sectors e

lemma Owners.other {own : ℕ → Option Owner} {o : Owner} {ds : List ℕ}
    (howners : Owners .whole vol s.device.sectors own)
    (hP : InTree .whole vol.geometry s.device.sectors P)
    (he : HasEntry (P.slots .whole vol.geometry s.device.sectors) e)
    (hds : Owned vol.geometry (bitmapClusters vol s.device.sectors) s.device.sectors own o ds)
    (ho : o ≠ .entry e.primary) : ∀ c ∈ ds, Other vol s e c := by
  intro c hc
  refine ⟨hds.heap c hc, hds.used c hc, fun hmem => ho ?_⟩
  have hown := hds.own c hc
  rw [(howners.entry P e hP he).own c hmem] at hown
  exact (Option.some.inj hown).symm

lemma dir_other (hwf : WellFormed .whole vol s) (hP : InTree .whole vol.geometry s.device.sectors P)
    (he : HasEntry (P.slots .whole vol.geometry s.device.sectors) e) (hfile : e.isDirectory = false)
    (hD : InTree .whole vol.geometry s.device.sectors D) :
    ∀ c ∈ D.clusters vol.geometry s.device.sectors, Other vol s e c := by
  obtain ⟨own, howners⟩ := hwf.owners
  have hdir := howners.dir hD
  exact fun c hc => ⟨hdir.heap c hc, hdir.used c hc,
    file_apart hwf.sound howners hP he hfile hD hc⟩

lemma entry_other (hwf : WellFormed .whole vol s)
    (hP : InTree .whole vol.geometry s.device.sectors P)
    (he : HasEntry (P.slots .whole vol.geometry s.device.sectors) e)
    (hD : InTree .whole vol.geometry s.device.sectors D)
    (hx : HasEntry (D.slots .whole vol.geometry s.device.sectors) x) (hne : x ≠ e) :
    ∀ c ∈ streamOf vol.geometry s.device.sectors x, Other vol s e c := by
  obtain ⟨own, howners⟩ := hwf.owners
  refine Owners.other howners hP he (howners.entry D x hD hx) fun heq => hne ?_
  exact (entry_unique hwf.sound howners hD hx hP he (Owner.entry.inj heq)).2

lemma extent_ends {g : Geometry} {d d' : Sectors} {first n : ℕ} {noFatChain : Bool}
    (hfat : ∀ i < n, fatEntry g d' (nthCluster g d first noFatChain i) =
      fatEntry g d (nthCluster g d first noFatChain i)) :
    extent g d' first noFatChain n = extent g d first noFatChain n ∧
      (ChainEnds g d first noFatChain n → ChainEnds g d' first noFatChain n) := by
  refine ⟨extent_eq fun _ i hi => hfat i (by omega), fun hends hchain => ?_⟩
  have hend := hends hchain
  split_ifs at hend ⊢ with hz
  · exact hend
  · obtain ⟨k, rfl⟩ : ∃ k, n = k + 1 := ⟨n - 1, by omega⟩
    rw [nthCluster_succ hchain] at hend ⊢
    rw [extent_congr (fun _ i hi => hfat i (by omega)) k.lt_succ_self, hfat k k.lt_succ_self]
    exact hend

lemma extent_bytes {g : Geometry} {d d' : Sectors} {m first len pos k : ℕ} {noFatChain : Bool}
    (hs : Sound g m) (hk : pos + k ≤ len)
    (hsame : ∀ c ∈ extent g d first noFatChain (clustersFor g len), SameCluster g d d' c) :
    streamBytes g d' (extent g d first noFatChain (clustersFor g len)) pos k =
      streamBytes g d (extent g d first noFatChain (clustersFor g len)) pos k := by
  have hsize := hs.size_ge
  have hroom := clustersFor_le hs len
  refine List.map_congr_left fun i hi => ?_
  rw [List.mem_range] at hi
  refine streamByte_congr (by omega) hs.clusterBytes_pos ?_ hsame
  rw [extent_length]
  omega

namespace Restreamed

variable (h : Restreamed vol s t e f cs)

include h

lemma notMem (hc : Other vol s e c) : c ∉ cs := by
  intro hmem
  rcases h.fresh c hmem with hin | hfree
  · exact hc.out hin
  · rw [hc.used] at hfree
    cases hfree

lemma fat_eq (hc : Other vol s e c) :
    fatEntry vol.geometry t.device.sectors c = fatEntry vol.geometry s.device.sectors c :=
  h.fat c hc.heap hc.used hc.out

lemma extent_other {first n : ℕ} {noFatChain : Bool}
    (hother : ∀ c ∈ extent vol.geometry s.device.sectors first noFatChain n, Other vol s e c) :
    extent vol.geometry t.device.sectors first noFatChain n =
        extent vol.geometry s.device.sectors first noFatChain n ∧
      (ChainEnds vol.geometry s.device.sectors first noFatChain n →
        ChainEnds vol.geometry t.device.sectors first noFatChain n) :=
  extent_ends fun _ hi => h.fat_eq (hother _ (nthCluster_mem hi))

lemma freeable (hP : InTree .whole vol.geometry s.device.sectors P) (hwf : WellFormed .whole vol s)
    (he : HasEntry (P.slots .whole vol.geometry s.device.sectors) e) :
    Freeable vol (bitmapClusters vol s.device.sectors) cs := by
  obtain ⟨own, howners⟩ := hwf.owners
  refine ⟨h.heap, h.nodup, fun c hc hbm => ?_⟩
  exact h.notMem (Owners.other howners hP he howners.bitmap nofun c hbm) hc

variable (hwf : WellFormed .whole vol s) (hr : ¬ Faulty s)
  (hP : InTree .whole vol.geometry s.device.sectors P)
  (he : HasEntry (P.slots .whole vol.geometry s.device.sectors) e) (hfile : e.isDirectory = false)

include hwf hP he

lemma sameCluster (hc : Other vol s e c) (hbm : c ∉ bitmapClusters vol s.device.sectors)
    (hout : c ∉ P.clusters vol.geometry s.device.sectors) :
    SameCluster vol.geometry s.device.sectors t.device.sectors c := by
  obtain ⟨d, hsame, honly⟩ := h.media
  apply sameCluster_trans (hsame c hc.heap hc.used hbm (h.notMem hc))
  apply honly.sameCluster
  intro loc hloc hin
  obtain ⟨own, howners⟩ := hwf.owners
  obtain ⟨x, hx, rfl⟩ := List.mem_map.mp (he.locs.1 hloc)
  obtain ⟨-, c', hc', hplaced⟩ := extentSlots_slotOn hwf.sound hx
  have heq := hin.unique (hwf.sound.inHeap_iff.mp hc.heap).1
    (hwf.sound.inHeap_iff.mp ((howners.dir hP).heap c' hc')).1 hplaced.inCluster
  exact hout (heq ▸ hc')

include hr hfile

/-- **The set of the file is that of the new stream**, and nothing else of the tree has changed. -/
theorem replaced : Replaced .whole vol s t e (restream e f) := by
  obtain ⟨own, howners⟩ := hwf.owners
  have hsound := hwf.sound
  have hupcase := howners.upcase
  have hother := Owners.other howners hP he hupcase nofun
  obtain ⟨d, hsame, honly⟩ := h.media
  have haligned : ∀ loc ∈ e.entryLocs.take e.entryCount, 32 ∣ loc.offset := by
    intro loc hloc
    obtain ⟨c, -, -, hplaced⟩ := hwf.placed hP he.locs.1 loc hloc
    exact hplaced.aligned
  refine ⟨h.base.ready, fun n => ?_,
    ⟨hupcase.heap, length_le_heap hsound hupcase.heap hupcase.nodup,
    (h.extent_other hother).1, fun c hc => ?_⟩, fun D hD c hc => ?_, fun D hD x hx hout =>
      ?_, h.set,
    rfl, hfile⟩
  · rw [h.follows.readFails]
    exact healthy_of_faultless hr n
  · refine h.sameCluster hwf hP he (hother c hc) ((howners.apart hupcase nofun).apart c hc)
      fun hmem => ?_
    have hown := hupcase.own c hc
    rw [(howners.dir hP).own c hmem] at hown
    exact Opened.owner_ne_upcase hP (Option.some.inj hown)
  · exact h.fat_eq (dir_other hwf hP he hfile hD c hc)
  · obtain ⟨hon, c, hc, hplaced⟩ := extentSlots_slotOn hsound hx
    have hdir := dir_other hwf hP he hfile hD c hc
    have hbm := (howners.apart (howners.dir hD) (Owners.owner_ne hD)).apart c hc
    rw [honly.slotOn_eq haligned hplaced.aligned hout]
    conv_rhs => rw [hon]
    unfold slotOn
    rw [hsame c hdir.heap hdir.used hbm (h.notMem hdir) _ hplaced.inCluster]

lemma owners : ∃ own, Owners .whole vol t.device.sectors own := by
  obtain ⟨own, howners⟩ := hwf.owners
  have hreplaced := h.replaced hwf hr hP he hfile
  have hbm : bitmapClusters vol t.device.sectors = bitmapClusters vol s.device.sectors :=
    Base.bitmapClusters_eq h.base extent_length
  -- the owners of clusters which are not of the file keep them
  have hkeeps {o : Owner} {ds : List ℕ}
      (hds : Owned vol.geometry (bitmapClusters vol s.device.sectors) s.device.sectors own o ds)
      (hother : ∀ c ∈ ds, Other vol s e c) :
      Owned vol.geometry (bitmapClusters vol t.device.sectors) t.device.sectors
        (fun c => if c ∈ cs then some (.entry e.primary) else own c) o ds := by
    refine ⟨hds.nodup, hds.heap, fun c hc => ?_, fun c hc => ?_⟩
    · rw [hbm, h.used c (counted_of_inHeap hwf.sound (hds.heap c hc)), hds.used c hc]
      simp [(hother c hc).out]
    · rw [if_neg (h.notMem (hother c hc))]
      exact hds.own c hc
  refine ⟨fun c => if c ∈ cs then some (.entry e.primary) else own c, ⟨?_, ?_, fun n hn => ?_,
    fun D x hD hx => ?_⟩⟩
  · have := hkeeps howners.bitmap (Owners.other howners hP he howners.bitmap nofun)
    rwa [hbm] at this ⊢
  · have hother := Owners.other howners hP he howners.upcase nofun
    have hsame : upcaseClusters vol t.device.sectors = upcaseClusters vol s.device.sectors :=
      (h.extent_other hother).1
    rw [hsame]
    exact hkeeps howners.upcase hother
  · have hroot := (inTree_iff hwf hreplaced hP he hfile).mp hn
    have hother := dir_other hwf hP he hfile hroot
    have hsame : (Dir.root vol.geometry n).clusters vol.geometry t.device.sectors =
      (Dir.root vol.geometry n).clusters vol.geometry s.device.sectors := (h.extent_other hother).1
    rw [hsame]
    exact hkeeps (howners.root n hroot) hother
  · have hD' := (inTree_iff hwf hreplaced hP he hfile).mp hD
    obtain ⟨y, hy, rfl⟩ := (hasEntry_iff hwf hreplaced hP he hD').mp hx
    unfold swapped
    split_ifs with hye
    · rw [show streamOf vol.geometry t.device.sectors (restream e f) = cs from h.clusters]
      refine ⟨h.nodup, h.heap, fun c hc => ?_, fun c hc => if_pos hc⟩
      rw [hbm, h.used c (counted_of_inHeap hwf.sound (h.heap c hc))]
      simp [hc]
    · have hother := entry_other hwf hP he hD' hy hye
      have hsame : streamOf vol.geometry t.device.sectors y =
        streamOf vol.geometry s.device.sectors y := (h.extent_other hother).1
      rw [hsame]
      exact hkeeps (howners.entry D y hD' hy) hother

/-- **The volume stays well-formed.** -/
theorem wellFormed : WellFormed .whole vol t := by
  obtain ⟨own, howners⟩ := hwf.owners
  have hreplaced := h.replaced hwf hr hP he hfile
  have htree {D : Dir} := @inTree_iff _ _ _ _ _ D _ hwf hreplaced hP he hfile
  obtain ⟨s0, hmount, hcount⟩ := hwf.mounted
  refine ⟨⟨s0, hmount, hcount.trans h.follows.sectorCount.symm⟩, h.base.ready.scratch,
    hwf.upcaseValid, hwf.covers, ?_, h.owners hwf hr hP he hfile, ?_, ?_, ?_, fun D hD => ?_,
    fun D x hD hx => ?_⟩
  · rw [Base.bitmapClusters_eq h.base extent_length]
    exact h.base.tally
  · exact (h.extent_other (Owners.other howners hP he howners.bitmap nofun)).2 hwf.bitmapEnds
  · exact (h.extent_other (Owners.other howners hP he howners.upcase nofun)).2 hwf.upcaseEnds
  · obtain ⟨n, hn⟩ := hwf.rootEnds
    exact ⟨n, htree.mpr hn⟩
  · exact decodes_replaced hwf hreplaced hP he (htree.mp hD)
  · obtain ⟨y, hy, rfl⟩ := (hasEntry_iff hwf hreplaced hP he (htree.mp hD)).mp hx
    unfold swapped
    split_ifs with hye
    · refine ⟨h.ends, fun hdir => ?_⟩
      have : e.isDirectory = true := hdir
      rw [hfile] at this
      cases this
    · obtain ⟨hends, hempty⟩ := hwf.entryEnds D y (htree.mp hD) hy
      exact ⟨(h.extent_other (entry_other hwf hP he (htree.mp hD) hy hye)).2 hends,
        hempty⟩

end Restreamed

end Restreams

/-! ### The handles behind the change -/

section Handles

variable {vol : Volume} {s t : Machine} {e e2 : DirectoryEntry} {P P2 : Dir} {file file2 f g : File}
  {path path2 : List Char} {cs : List ℕ} {k : ℕ}

lemma rewound_restream (hnames : Names f e) (hg : rewound g = rewound f) :
    rewound g = File.ofEntry (restream e f) := by
  rw [hg]
  simp only [rewound, File.ofEntry, restream, hnames.primary, hnames.stream, hnames.entryLocs,
    hnames.entryCount]

variable (h : Restreamed vol s t e f cs) (hopened : Opened .whole vol s path file P e)

include h hopened

lemma opened_restreamed (hg : rewound g = rewound f) :
    Opened .whole vol t path g P (restream e f) := by
  have hreplaced := h.replaced hopened.wf hopened.faultless hopened.inTree hopened.entry
    hopened.isFile
  have hlookup := hreplaced.lookup hopened.wf hopened.inTree hopened.entry hopened.healthy
    hopened.lookup
  rw [swapped, if_pos rfl] at hlookup
  have htree := (inTree_iff hopened.wf hreplaced hopened.inTree hopened.entry hopened.isFile).mpr
    hopened.inTree
  refine ⟨h.wellFormed hopened.wf hopened.faultless hopened.inTree hopened.entry hopened.isFile,
    Allocator.Follows.faultless h.follows hopened.faultless, hlookup, htree, ?_, hopened.isFile,
    rewound_restream h.names hg⟩
  exact (hasEntry_iff hopened.wf hreplaced hopened.inTree hopened.entry hopened.inTree).mpr
    ⟨e, hopened.entry, (if_pos rfl).symm⟩

variable (hother : Opened .whole vol s path2 file2 P2 e2) (hne : e2 ≠ e)

include hother hne

lemma opened_other : Opened .whole vol t path2 file2 P2 e2 := by
  have hreplaced := h.replaced hopened.wf hopened.faultless hopened.inTree hopened.entry
    hopened.isFile
  have hlookup := hreplaced.lookup hopened.wf hopened.inTree hopened.entry hopened.healthy
    hother.lookup
  rw [swapped, if_neg hne] at hlookup
  have htree := (inTree_iff hopened.wf hreplaced hopened.inTree hopened.entry hopened.isFile).mpr
    hother.inTree
  refine ⟨h.wellFormed hopened.wf hopened.faultless hopened.inTree hopened.entry hopened.isFile,
    Allocator.Follows.faultless h.follows hopened.faultless, hlookup, htree, ?_, hother.isFile,
    hother.handle⟩
  exact (hasEntry_iff hopened.wf hreplaced hopened.inTree hopened.entry hother.inTree).mpr
    ⟨e2, hother.entry, (if_neg hne).symm⟩

lemma clusters_other : clustersOfFile vol.geometry t.device.sectors file2 =
    clustersOfFile vol.geometry s.device.sectors file2 := by
  rw [hother.clusters_eq, hother.clusters_eq]
  exact (h.extent_other (entry_other hopened.wf hopened.inTree hopened.entry hother.inTree
    hother.entry hne)).1

lemma bytes_other (hk : k ≤ file2.dataLength) :
    streamBytes vol.geometry t.device.sectors (clustersOfFile vol.geometry s.device.sectors file2)
        0 k =
      streamBytes vol.geometry s.device.sectors
        (clustersOfFile vol.geometry s.device.sectors file2) 0 k := by
  obtain ⟨own, howners⟩ := hopened.wf.owners
  have hsound := hopened.wf.sound
  refine extent_bytes hsound (by omega) fun c hc => ?_
  have hapart := hother.freeable.apart c hc
  have hmem : c ∈ streamOf vol.geometry s.device.sectors e2 := hother.clusters_eq _ ▸ hc
  refine h.sameCluster hopened.wf hopened.inTree hopened.entry (entry_other hopened.wf
    hopened.inTree hopened.entry hother.inTree hother.entry hne c hmem) hapart fun hdir => ?_
  exact file_apart hsound howners hother.inTree hother.entry hother.isFile hopened.inTree hdir hmem

end Handles

/-! ### Truncation -/

section Truncation

variable {vol : Volume} {s u : Machine} {e : DirectoryEntry} {P : Dir} {file f : File}
  {path : List Char} {d : Sectors} {len : ℕ}

lemma set_committed (hwf : WellFormed .whole vol s)
    (hP : InTree .whole vol.geometry s.device.sectors P)
    (he : HasEntry (P.slots .whole vol.geometry s.device.sectors) e)
    (hslots : ∀ x ∈ P.slots .whole vol.geometry s.device.sectors, slotOn d x.loc = x)
      (hnames : Names f e)
    (hf : Streamable f) : ∃ prim stream names,
      (e.entryLocs.take e.entryCount).map (slotOn (committed d f)) = prim :: stream :: names ∧
        IsSet prim stream names ∧ restream e f = entryOf prim stream names := by
  have halign : ∀ loc ∈ e.entryLocs.take e.entryCount, 32 ∣ loc.offset := by
    intro loc hloc
    obtain ⟨c, -, -, hplaced⟩ := hwf.placed hP he.locs.1 loc hloc
    exact hplaced.aligned
  obtain ⟨prim, stream, names, hset, hentry⟩ := id he
  have hdec : DecodesAt d e := by
    rw [hentry, IsSet.entryOf_group hset.isSet]
    exact decodesAt_of_isSet hset.isSet fun x hx => hslots x (hset.inside.subset hx)
  obtain ⟨prim', stream', names', hslots', hset', hentry'⟩ :=
    (committed_decodes hdec halign hnames hf).isSet
  exact ⟨prim', stream', names', hslots', hset', hentry'.trans (IsSet.entryOf_group hset').symm⟩

/-- **Truncation gives the file a prefix of its stream.** -/
theorem truncated_restreams (h : Opened .whole vol s path file P e) (hlen : len ≤ file.validLength)
    (hu : Became vol (bitmapClusters vol s.device.sectors) s u (truncatedMedia vol.geometry
      (bitmapClusters vol s.device.sectors) s.device.sectors file len)) :
    Restreamed vol s u e (truncatedFile vol.geometry file len)
      ((clustersOfFile vol.geometry s.device.sectors file).take
      (clustersFor vol.geometry len)) := by
  have hsound := h.wf.sound
  have hmapped := h.wf.base.mapped
  have hvalid := h.valid_le
  have hdata : len ≤ file.dataLength := by omega
  have hnodup := h.freeable.nodup
  have hstream : streamOf vol.geometry s.device.sectors e =
    clustersOfFile vol.geometry s.device.sectors file := (h.clusters_eq _).symm
  obtain ⟨hclusters, hends⟩ := h.clusters_truncated hlen
  refine ⟨hu.follows, hu.base, h.names len, ?_, ?_, fun c hc => h.freeable.heap c
    (List.mem_of_mem_take hc), hnodup.sublist (List.take_sublist _ _), fun c hc => .inl ?_,
    fun c hc => ?_, fun c hc _ hout => ?_, ⟨cutMedia vol.geometry
    (bitmapClusters vol s.device.sectors) s.device.sectors file len, fun c hc _ hbm _ =>
    sameCluster_cut hmapped hsound h.freeable hdata hc hbm, ?_⟩, (h.replaced hlen hu).set⟩
  · rw [hu.sectors]
    exact hclusters
  · rw [hu.sectors, truncatedFile_clusters hsound hdata]
    exact hends
  · rw [hstream]
    exact List.mem_of_mem_take hc
  · rw [hu.sectors, (h.only len _).used_eq hsound h.placed (mapped_cut hmapped hsound h.freeable
      hdata) hc, used_cut hmapped hsound h.freeable hdata hc, hstream]
    by_cases hin : c ∈ clustersOfFile vol.geometry s.device.sectors file
    · obtain ⟨own, howners⟩ := h.wf.owners
      rw [(howners.entry P e h.inTree h.entry).used c (hstream ▸ hin)]
      rw [← List.take_append_drop (clustersFor vol.geometry len)
        (clustersOfFile vol.geometry s.device.sectors file)] at hin hnodup
      rcases List.mem_append.mp hin with htake | hdrop
      · have hdrop : c ∉ (clustersOfFile vol.geometry s.device.sectors file).drop
            (clustersFor vol.geometry len) :=
          fun hdrop => (List.nodup_append.mp hnodup).2.2 c htake c hdrop rfl
        simp [htake, hdrop]
      · have htake : c ∉ (clustersOfFile vol.geometry s.device.sectors file).take
            (clustersFor vol.geometry len) :=
          fun htake => (List.nodup_append.mp hnodup).2.2 c htake c hdrop rfl
        have hin := List.mem_of_mem_drop hdrop
        simp [htake, hdrop, hin]
    · have htake : c ∉ (clustersOfFile vol.geometry s.device.sectors file).take
        (clustersFor vol.geometry len) := fun hmem => hin (List.mem_of_mem_take hmem)
      have hdrop : c ∉ (clustersOfFile vol.geometry s.device.sectors file).drop
        (clustersFor vol.geometry len) := fun hmem => hin (List.mem_of_mem_drop hmem)
      simp [htake, hdrop, hin]
  · rw [hu.sectors]
    exact h.fatEntry_eq hlen hc hout
  · rw [hu.sectors]
    exact h.only len _

end Truncation

end ExfatEmbedded.Restreaming

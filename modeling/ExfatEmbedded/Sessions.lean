import ExfatEmbedded.Creating
import ExfatEmbedded.Extending
import ExfatEmbedded.Library.Runs
import Mathlib.Data.Fintype.Basic

/-!
Sessions: runs of requests on open files, and of removals and creations beside them.

Each open file answers as a string of bytes with a position does, whatever is done to the others
and whatever else is removed or created, and the volume stays well-formed.
-/

namespace ExfatEmbedded.Sessions

open ExfatEmbedded.Library Exec ExfatEmbedded.Core ExfatEmbedded.Entry ExfatEmbedded.Allocation
open ExfatEmbedded.Lookup ExfatEmbedded.FileIo ExfatEmbedded.EntryWrite ExfatEmbedded.Mutation
open ExfatEmbedded.Reading ExfatEmbedded.Scan ExfatEmbedded.Sets ExfatEmbedded.Listing
open ExfatEmbedded.ReadSafety ExfatEmbedded.MountSafety ExfatEmbedded.StreamSafety
open ExfatEmbedded.Media ExfatEmbedded.Writing ExfatEmbedded.Tree ExfatEmbedded.Commit
open ExfatEmbedded.Release ExfatEmbedded.Layout ExfatEmbedded.Slots ExfatEmbedded.Codec
open ExfatEmbedded.Ownership ExfatEmbedded.Replacing ExfatEmbedded.Readback ExfatEmbedded.Truncating
open ExfatEmbedded.Growth ExfatEmbedded.Allocator ExfatEmbedded.Appending ExfatEmbedded.Overwriting
open ExfatEmbedded.Restreaming ExfatEmbedded.Extending ExfatEmbedded.Vacating ExfatEmbedded.Mount
open ExfatEmbedded.Removal ExfatEmbedded.Filling ExfatEmbedded.Creating

/-! ### What a session sees of a file -/

/-- An open file is a string of bytes with a position. -/
structure View where
  bytes : List UInt8
  position : ℕ
  deriving DecidableEq, Repr

inductive Request where
  | read (n : ℕ)
  | write (input : List UInt8)
  | append (input : List UInt8)
  | truncate (len : ℕ)
  | reopen
  deriving DecidableEq, Repr

inductive Reply where
  | bytes (out : List UInt8)
  | count (n : ℕ)
  | done
  deriving DecidableEq, Repr

namespace View

/-- How a string of bytes answers. -/
def answer : Request → View → Outcome Error Reply × View
  | .read n, v =>
    (.ok (.bytes ((v.bytes.drop v.position).take n)),
      { v with position := v.position + min n (v.bytes.length - v.position) })
  | .write input, v =>
    let k := min input.length (v.bytes.length - v.position)
    (.ok (.count k), ⟨v.bytes.take v.position ++ input.take k ++ v.bytes.drop (v.position + k),
      v.position + k⟩)
  | .append input, v =>
    (.ok (.count input.length),
      if input = [] then v else ⟨v.bytes ++ input, v.bytes.length + input.length⟩)
  | .truncate len, v =>
    if v.bytes.length < len then (.err .endOfFile, v)
    else (.ok .done, ⟨v.bytes.take len, min v.position len⟩)
  | .reopen, v => (.ok .done, { v with position := 0 })

end View

/-- How the program answers a request on the handle of the file at `path`. -/
def answer (vol : Volume) (path : List Char) : Request → FileM Reply
  | .read n => Reply.bytes <$> FileIo.read vol n
  | .write input => Reply.count <$> write vol input
  | .append input => Reply.count <$> append vol input
  | .truncate len => (fun _ => Reply.done) <$> truncate vol len
  | .reopen => do
    let file ← openFile vol path
    modifySnd fun _ => file
    pure .done

/-- The requests which are within what a file can do: an append finds room. -/
def Admitted (vol : Volume) : Request → Machine × File → Prop
  | .append input, σ => Roomy vol σ.1 σ.2 input
  | _, _ => True

instance (vol : Volume) : ∀ x σ, Decidable (Admitted vol x σ)
  | .append input, σ => inferInstanceAs (Decidable (Roomy vol σ.1 σ.2 input))
  | .read _, _ => inferInstanceAs (Decidable True)
  | .write _, _ => inferInstanceAs (Decidable True)
  | .truncate _, _ => inferInstanceAs (Decidable True)
  | .reopen, _ => inferInstanceAs (Decidable True)

/-! ### Requests which keep the stream -/

section Kept

variable {vol : Volume} {s t : Machine} {path : List Char} {file g : File} {P : Dir}
  {e : DirectoryEntry} {c : ℕ}

lemma kept_restreams (h : Opened .whole vol s path file P e)
    (ht : Relinked vol (bitmapClusters vol s.device.sectors) s t [])
    (hframe : ∀ c, vol.geometry.InHeap c →
      c ∉ clustersOfFile vol.geometry s.device.sectors file →
        SameCluster vol.geometry s.device.sectors t.device.sectors c)
    (hg : rewound g = rewound file) :
    Restreamed vol s t e g (clustersOfFile vol.geometry s.device.sectors file) := by
  obtain ⟨hprim, hstream, hlocs, hcount, hfirst, hdata, hvalid, hfat⟩ := h.fields
  simp only [rewound, File.mk.injEq] at hg
  obtain ⟨hprim', hstream', hlocs', hcount', hfirst', hdata', hvalid', -, hfat', -⟩ := hg
  have hstreamOf := h.clusters_eq s.device.sectors
  have hsame : extent vol.geometry t.device.sectors g.firstCluster g.noFatChain
      (clustersFor vol.geometry g.dataLength) = clustersOfFile vol.geometry s.device.sectors file ∧
      ChainEnds vol.geometry t.device.sectors g.firstCluster g.noFatChain
        (clustersFor vol.geometry g.dataLength) := by
    rw [hfirst', hdata', hfat']
    have hkept := @extent_ends _ s.device.sectors t.device.sectors _ _ _
      fun i (hi : i < clustersFor vol.geometry
      file.dataLength) => ht.fat _ (h.freeable.heap _ (nthCluster_mem hi)) List.not_mem_nil
    refine ⟨hkept.1, hkept.2 ?_⟩
    rw [hfirst, hdata, hfat]
    exact (h.wf.entryEnds P e h.inTree h.entry).1
  refine ⟨ht.follows, ht.base, ⟨hprim'.trans hprim, hstream'.trans hstream, hlocs'.trans hlocs,
    hcount'.trans hcount⟩, hsame.1, hsame.2, h.freeable.heap, h.freeable.nodup,
    fun c hc => .inl (hstreamOf ▸ hc), fun c hc => ?_, fun c hc _ _ => ht.fat c hc List.not_mem_nil,
    ⟨t.device.sectors, fun c hc _ _ hout => hframe c hc hout, OnlySlots.refl _⟩, ?_⟩
  · rw [ht.used c hc, ← hstreamOf]
    by_cases hin : c ∈ clustersOfFile vol.geometry s.device.sectors file
    · rw [opened_used h hin]
      simp [hin]
    · simp [hin]
  · obtain ⟨prim, stream, names, hset, hentry⟩ := id h.entry
    obtain ⟨own, howners⟩ := h.wf.owners
    refine ⟨prim, stream, names, ?_, hset.isSet, ?_⟩
    · rw [hentry, entryOf_take_locs hset.isSet, List.map_map]
      refine (List.map_congr_left fun x hx => ?_).trans (List.map_id _)
      obtain ⟨hon, c, hc, hplaced⟩ := extentSlots_slotOn h.wf.sound (hset.inside.subset hx)
      have hother := dir_other h.wf h.inTree h.entry h.isFile h.inTree c hc
      conv_rhs => rw [hon]
      simp only [Function.comp_apply, slotOn, id]
      rw [hframe c hother.heap (hstreamOf ▸ hother.out) _ hplaced.inCluster]
    · rw [← hentry]
      simp only [restream, hfirst', hdata', hvalid', hfat', hfirst, hdata, hvalid, hfat]

end Kept

lemma streams_of_clusters {vol : Volume} {d d' : Sectors} {f f' : File}
    (h : Streams vol.geometry d f (clustersFor vol.geometry f.dataLength))
    (hclusters : clustersOfFile vol.geometry d' f' = clustersOfFile vol.geometry d f)
    (hdata : f'.dataLength = f.dataLength)
    (hcached : ∀ i, f'.cachedClusterIndex = some i → i < clustersFor vol.geometry f.dataLength ∧
      f'.cachedCluster = nthCluster vol.geometry d f.firstCluster f.noFatChain i) :
    Streams vol.geometry d' f' (clustersFor vol.geometry f'.dataLength) := by
  have hnth : ∀ i < clustersFor vol.geometry f.dataLength,
      nthCluster vol.geometry d' f'.firstCluster f'.noFatChain i =
        nthCluster vol.geometry d f.firstCluster f.noFatChain i := by
    intro i hi
    have := congrArg (fun l => l.getD i 0) hclusters
    simpa only [clustersOfFile, hdata, extent_getD hi] using this
  rw [hdata]
  refine ⟨fun i hi => hnth i hi ▸ h.heap i hi, h.short, fun i hi => ?_⟩
  obtain ⟨hlt, hcluster⟩ := hcached i hi
  exact ⟨hlt, hcluster.trans (hnth i hlt).symm⟩

/-! ### Serving a request -/

/-- The handle `file` of the file at `path`, whose set is at `home`, shows `view`. -/
structure Serving (vol : Volume) (path : List Char) (home : EntryLocator) (s : Machine)
    (file : File)
    (view : View) : Prop where
  opened : ∃ P e, Opened .whole vol s path file P e
  home : file.primary = home
  streams : Streams vol.geometry s.device.sectors file (clustersFor vol.geometry file.dataLength)
  position : file.position = view.position
  inside : file.position ≤ file.validLength
  bytes : streamBytes vol.geometry s.device.sectors
    (clustersOfFile vol.geometry s.device.sectors file) 0 file.validLength = view.bytes

/-- A request on the file `e` has left the stream of the handle, which shows `view`. -/
structure Served (vol : Volume) (s : Machine) (e : DirectoryEntry) (view : View)
    (u : Machine × File) : Prop where
  restreamed : ∃ cs, Restreamed vol s u.1 e u.2 cs
  streams : Streams vol.geometry u.1.device.sectors u.2 (clustersFor vol.geometry u.2.dataLength)
  position : u.2.position = view.position
  inside : u.2.position ≤ u.2.validLength
  bytes : streamBytes vol.geometry u.1.device.sectors
    (clustersOfFile vol.geometry u.1.device.sectors u.2) 0 u.2.validLength = view.bytes

section Serve

variable {vol : Volume} {s t : Machine} {path path' : List Char} {file file' g : File} {P : Dir}
  {e : DirectoryEntry} {home home' : EntryLocator} {view view' : View} {u : Machine × File}

lemma Serving.length (h : Serving vol path home s file view) :
    view.bytes.length = file.validLength := by
  rw [← h.bytes, streamBytes_length]

lemma Served.serving (h : Served vol s e view u) (hopened : Opened .whole vol s path file P e)
    (hhome : file.primary = home) : Serving vol path home u.1 u.2 view := by
  obtain ⟨cs, hrestreamed⟩ := h.restreamed
  refine ⟨⟨P, restream e u.2, opened_restreamed hrestreamed hopened rfl⟩, ?_, h.streams, h.position,
    h.inside, h.bytes⟩
  rw [hrestreamed.names.primary, ← hopened.fields.1, hhome]

lemma Served.other (h : Served vol s e view u) (hopened : Opened .whole vol s path file P e)
    (hother : Serving vol path' home' s file' view') (hne : file.primary ≠ home') :
    Serving vol path' home' u.1 file' view' := by
  obtain ⟨cs, hrestreamed⟩ := h.restreamed
  obtain ⟨P', e', hopened'⟩ := hother.opened
  have hentry : e' ≠ e := by
    rintro rfl
    refine hne ?_
    rw [hopened.fields.1, ← hopened'.fields.1, hother.home]
  have hclusters := clusters_other hrestreamed hopened hopened' hentry
  refine ⟨⟨P', e', opened_other hrestreamed hopened hopened' hentry⟩, hother.home,
    streams_of_clusters hother.streams hclusters rfl hother.streams.cached, hother.position,
    hother.inside, ?_⟩
  rw [hclusters, bytes_other hrestreamed hopened hopened' hentry hopened'.valid_le]
  exact hother.bytes

lemma served_kept (h : Opened .whole vol s path file P e)
    (hstreams : Streams vol.geometry s.device.sectors file
    (clustersFor vol.geometry file.dataLength))
    (ht : Relinked vol (bitmapClusters vol s.device.sectors) s t [])
    (hframe : ∀ c, vol.geometry.InHeap c →
      c ∉ clustersOfFile vol.geometry s.device.sectors file →
        SameCluster vol.geometry s.device.sectors t.device.sectors c)
    (hg : rewound g = rewound file)
    (hcached : ∀ i, g.cachedClusterIndex = some i →
      i < clustersFor vol.geometry file.dataLength ∧ g.cachedCluster =
        nthCluster vol.geometry s.device.sectors file.firstCluster file.noFatChain i)
    (hpos : g.position = view.position) (hle : g.position ≤ file.validLength)
    (hbytes : streamBytes vol.geometry t.device.sectors
      (clustersOfFile vol.geometry s.device.sectors file) 0 file.validLength = view.bytes) :
    Served vol s e view (t, g) := by
  have hrestreamed := kept_restreams h ht hframe hg
  have hclusters := hrestreamed.clusters
  simp only [rewound, File.mk.injEq] at hg
  obtain ⟨-, -, -, -, hfirst, hdata, hvalid, -, hfat, -⟩ := hg
  refine ⟨⟨_, hrestreamed⟩, streams_of_clusters hstreams hclusters hdata hcached, hpos, ?_, ?_⟩
  · simp only [hvalid]
    exact hle
  · simp only [hclusters, hvalid]
    exact hbytes

/-! ### Each request -/

lemma run_of_wp {σ ε α : Type} {m : Exec σ ε α} {o : Outcome ε α} {S : σ → Prop} {x : σ}
    (h : wp m (fun a y => .ok a = o ∧ S y) (fun _ _ => False) x) : (m x).1 = o ∧ S (m x).2 := by
  obtain ⟨a, y, hrun, ho, hy⟩ := exists_of_wp h
  rw [hrun]
  exact ⟨ho, hy⟩

lemma lift_ok {m : FsM File} {f : File} (h : m s = (.ok f, t)) :
    (liftM m : FileM File) (s, file) = (.ok f, (t, file)) := by
  change onFst m (s, file) = _
  rw [onFst, h]

lemma relinked_of_quiet (hs : Base vol (bitmapClusters vol s.device.sectors) s)
    (ht : Quiet vol.geometry.partition s t) :
    Relinked vol (bitmapClusters vol s.device.sectors) s t [] :=
  ⟨(wrote_of_quiet ht).follows, ((wrote_of_quiet ht).same hs).base,
    fun _ _ _ => by rw [ht.sectors], fun _ _ => by rw [ht.sectors]⟩

lemma drop_streamBytes {g : Geometry} {d : Sectors} {cs : List ℕ} {pos n : ℕ} (h : pos ≤ n) :
    (streamBytes g d cs 0 n).drop pos = streamBytes g d cs pos (n - pos) := by
  obtain ⟨k, rfl⟩ := Nat.exists_eq_add_of_le h
  rw [streamBytes_add, List.drop_left' (by simp)]
  simp

variable (h : Serving vol path home s file view) (hopened : Opened .whole vol s path file P e)

include h hopened

lemma read_serves (n : ℕ) :
    (answer vol path (.read n) (s, file)).1 = (View.answer (.read n) view).1 ∧
      Served vol s e (View.answer (.read n) view).2 (answer vol path (.read n) (s, file)).2 := by
  have hlength := h.length
  have hinside := h.inside
  apply run_of_wp
  simp only [answer, wp_map]
  refine wp_mono _ (read_moves hopened.wf.ready hopened.healthy h.streams hopened.room n) ?_
    fun _ _ hf => hf
  rintro out ⟨t, g⟩ ⟨rfl, hu⟩
  have hhandle := hu.handle
  have hquiet := hu.quiet
  simp only at hhandle hquiet
  constructor
  · -- the bytes which are read
    simp only [View.answer, Outcome.ok.injEq, Reply.bytes.injEq]
    rw [← h.bytes, ← h.position, drop_streamBytes hinside]
    rcases Nat.le_total n (file.validLength - file.position) with hle | hle
    · rw [take_streamBytes hle, min_eq_left hle]
      rfl
    · rw [List.take_of_length_le (by simpa using hle), min_eq_right hle]
      rfl
  · refine served_kept hopened h.streams (relinked_of_quiet hopened.wf.base hquiet)
      (fun c _ _ lba _ => by rw [hquiet.sectors]) (by rw [hhandle]; rfl) hu.cached ?_ ?_ ?_
    · rw [hhandle]
      simp only [View.answer, hlength, h.position]
    · rw [hhandle]
      simp only
      omega
    · rw [hquiet.sectors]
      exact h.bytes

lemma write_serves (input : List UInt8) :
    (answer vol path (.write input) (s, file)).1 = (View.answer (.write input) view).1 ∧
      Served vol s e (View.answer (.write input) view).2
        (answer vol path (.write input) (s, file)).2 := by
  have hlength := h.length
  have hinside := h.inside
  have hsound := hopened.wf.sound
  have hpos : 0 < clusterSize vol.geometry := hsound.clusterBytes_pos
  have hroom := hopened.room
  apply run_of_wp
  simp only [answer, wp_map]
  refine wp_mono _ (@write_overwrites vol (bitmapClusters vol s.device.sectors) s file _ input
    hopened.wf.base hopened.faultless h.streams hopened.freeable.nodup
    (fun i hi => hopened.freeable.apart _ (nthCluster_mem hi)) hroom) ?_ fun _ _ hf => hf
  rintro k ⟨t, g⟩ ⟨hk, hu⟩
  have hhandle := hu.writes.handle
  have hlen : (input.take k).length = k := List.length_take_of_le (by omega)
  simp only [hlen] at hhandle
  have hview : View.answer (.write input) view = (.ok (.count k), ⟨view.bytes.take view.position ++
      input.take k ++ view.bytes.drop (view.position + k), view.position + k⟩) := by
    simp only [View.answer, hlength, ← h.position, ← hk]
  rw [hview]
  refine ⟨rfl, ?_⟩
  refine served_kept hopened h.streams hu.writes.relinked (fun c hc hout lba hin => ?_)
    (by rw [hhandle]; rfl) hu.writes.cached ?_ ?_ ?_
  · refine hu.frame lba fun i hi hin' => hout ?_
    have hheap := hopened.freeable.heap _ (nthCluster_mem hi)
    rw [hin.unique (hsound.inHeap_iff.mp hc).1 (hsound.inHeap_iff.mp hheap).1 hin']
    exact nthCluster_mem hi
  · rw [hhandle]
    simp only [h.position]
  · rw [hhandle]
    simp only
    omega
  · refine List.ext_getElem ?_ fun j h1 h2 => ?_
    · simp only [streamBytes_length, List.length_append, List.length_take,
        List.length_drop, hlength,
        ← h.position]
      omega
    have hj : j < file.validLength := by simpa using h1
    have hbytes := hu.bytes j (by rw [Nat.div_lt_iff_lt_mul hpos]; omega)
    rw [hlen] at hbytes
    have hold : streamByte vol.geometry s.device.sectors
        (clustersOfFile vol.geometry s.device.sectors file) j = view.bytes.getD j 0 := by
      rw [← h.bytes, List.getD_eq_getElem _ _ (by simpa using hj)]
      simp [streamBytes]
    change streamByte _ _ (clustersOfFile vol.geometry s.device.sectors file) j =
      if _ then _ else streamByte _ _ (clustersOfFile vol.geometry s.device.sectors file)
        j at hbytes
    rw [hold] at hbytes
    simp only [streamBytes, List.getElem_map, List.getElem_range, Nat.zero_add]
    rw [hbytes, ← List.getD_eq_getElem _ 0 h2, ← h.position]
    simp only [List.getD_eq_getElem?_getD]
    rw [List.append_assoc, List.getElem?_append, List.length_take, min_eq_left (by omega),
      List.getElem?_append, hlen]
    by_cases hbefore : j < file.position
    · rw [if_neg (by omega), if_pos hbefore, List.getElem?_take_of_lt hbefore]
    rw [if_neg hbefore]
    by_cases hput : j < file.position + k
    · rw [if_pos (by omega), if_pos (by omega)]
    · rw [if_neg (by omega), if_neg (by omega), List.getElem?_drop,
        show file.position + k + (j - file.position - k) = j by omega]

lemma append_serves (input : List UInt8) (hroom : Roomy vol s file input) :
    (answer vol path (.append input) (s, file)).1 = (View.answer (.append input) view).1 ∧
      Served vol s e (View.answer (.append input) view).2
        (answer vol path (.append input) (s, file)).2 := by
  have hlength := h.length
  apply run_of_wp
  simp only [answer, wp_map]
  by_cases hinput : input = []
  · subst hinput
    unfold append
    rw [if_pos rfl]
    exact ⟨rfl, served_kept hopened h.streams (Relinked.refl hopened.wf.base) (fun _ _ _ _ _ => rfl)
      rfl h.streams.cached h.position h.inside h.bytes⟩
  refine wp_mono _ (append_extends hopened hinput hroom) ?_ fun _ _ hf => hf
  rintro k ⟨t, g⟩ ⟨rfl, hu⟩
  obtain ⟨cs, -, -, hrestreamed⟩ := hu.restreamed
  have hposition := hu.position
  have hvalid := hu.valid
  simp only at hposition hvalid
  simp only [View.answer, if_neg hinput]
  refine ⟨trivial, ⟨_, hrestreamed⟩, hu.streams, ?_, ?_, ?_⟩
  · simp only [hposition, hlength]
  · simp only [hposition, hvalid, le_refl]
  · simp only [hvalid]
    rw [hu.bytes, h.bytes]

lemma truncate_serves (len : ℕ) :
    (answer vol path (.truncate len) (s, file)).1 = (View.answer (.truncate len) view).1 ∧
      Served vol s e (View.answer (.truncate len) view).2
        (answer vol path (.truncate len) (s, file)).2 := by
  have hlength := h.length
  have hinside := h.inside
  simp only [View.answer, hlength]
  split_ifs with hlt
  · have hrun : answer vol path (.truncate len) (s, file) = (.err .endOfFile, (s, file)) := by
      have htruncate : truncate vol len (s, file) = (.err .endOfFile, (s, file)) := by
        unfold truncate
        rw [bind_apply]
        simp only [getSnd, if_pos hlt]
        rfl
      simp only [answer, ← bind_pure_comp]
      exact bind_err htruncate
    rw [hrun]
    exact ⟨rfl, served_kept hopened h.streams (Relinked.refl hopened.wf.base) (fun _ _ _ _ _ => rfl)
      rfl h.streams.cached h.position h.inside h.bytes⟩
  have hlen : len ≤ file.validLength := Nat.le_of_not_lt hlt
  have hvalid := hopened.valid_le
  have hsound := hopened.wf.sound
  obtain ⟨u, hrun, hu⟩ := hopened.run hlen
  have hrun' : answer vol path (.truncate len) (s, file) =
      (.ok .done, (u, truncatedFile vol.geometry file len)) := by
    simp only [answer, ← bind_pure_comp]
    exact bind_ok hrun
  rw [hrun']
  have hstreams := hopened.streams_truncated hlen
  have hclusters := (hopened.clusters_truncated hlen).1
  obtain ⟨hlength', hposition, -⟩ := truncatedFile_fields vol.geometry file len
  have hcount : clustersFor vol.geometry (truncatedFile vol.geometry file len).dataLength =
    clustersFor vol.geometry len := truncatedFile_clusters hsound (by omega)
  refine ⟨rfl, ⟨_, truncated_restreams hopened hlen hu⟩, ?_, ?_, ?_, ?_⟩
  · simp only [hu.sectors, hcount]
    refine ⟨hstreams.heap, hstreams.short, fun i hi => ?_⟩
    rcases truncatedFile_cases vol.geometry file len with ⟨-, hfile⟩ | ⟨hge, hfile⟩
    · rw [hfile] at hi
      cases hi
    · -- the stream keeps its clusters, and the cache is that of before
      have hle := @clustersFor_mono vol.geometry len file.dataLength (by omega)
      have heq : clustersFor vol.geometry len = clustersFor vol.geometry file.dataLength := by omega
      rw [hfile] at hi
      obtain ⟨hi', hcluster⟩ := h.streams.cached i hi
      refine ⟨heq ▸ hi', ?_⟩
      rw [List.take_of_length_le (by unfold clustersOfFile; rw [extent_length]; omega)] at hclusters
      have hnth := congrArg (fun l => l.getD i 0) hclusters
      simp only [clustersOfFile, hcount, heq] at hnth
      rw [extent_getD hi', extent_getD hi'] at hnth
      rw [hnth, ← hcluster, hfile]
  · simp only [hposition, h.position]
  · simp only [hposition, hlength']
    omega
  · simp only [hlength', hu.sectors]
    rw [hclusters, hopened.bytes_truncated hlen le_rfl, ← h.bytes, take_streamBytes hlen]

lemma reopen_serves :
    (answer vol path .reopen (s, file)).1 = (View.answer .reopen view).1 ∧
      Served vol s e (View.answer .reopen view).2 (answer vol path .reopen (s, file)).2 := by
  have hready := hopened.wf.ready
  have hopen : (openFile vol path s).1 = .ok (rewound file) := by
    rw [hopened.handle]
    exact openFile_ok hopened.lookup hopened.isFile
  have hquiet := (wp_ok (run_eq hopen)).mp (@openFile_quiet vol s path hready
    fun hv => hopened.wf.table hv)
  have hrun : answer vol path .reopen (s, file) =
      (.ok .done, ((openFile vol path s).2, rewound file)) := by
    simp only [answer]
    rw [bind_ok (lift_ok (run_eq hopen))]
    rfl
  rw [hrun]
  refine ⟨rfl, served_kept hopened h.streams (relinked_of_quiet hopened.wf.base hquiet)
    (fun c _ _ lba _ => by rw [hquiet.sectors]) rfl (fun i hi => ?_) rfl (Nat.zero_le _) ?_⟩
  · cases hi
  · rw [hquiet.sectors]
    exact h.bytes

/-- **A handle answers as its view does.** -/
theorem answer_serves (x : Request) (hx : Admitted vol x (s, file)) :
    (answer vol path x (s, file)).1 = (View.answer x view).1 ∧
      Served vol s e (View.answer x view).2 (answer vol path x (s, file)).2 := by
  cases x with
  | read n => exact read_serves h hopened n
  | write input => exact write_serves h hopened input
  | append input => exact append_serves h hopened input hx
  | truncate len => exact truncate_serves h hopened len
  | reopen => exact reopen_serves h hopened

end Serve

/-! ### Sessions -/

section Session

open Library.Runs

variable {ι : Type} [DecidableEq ι] {vol : Volume} {s t : Machine} {paths : ι → List Char}
  {files : ι → File} {home : ι → EntryLocator} {views : ι → View}

/-- An edit of the tree. -/
inductive Edit where
  | remove (path : List Char)
  | create (path : List Char)
  deriving DecidableEq, Repr

/-- The volume behind an edit. -/
def edit (vol : Volume) : Edit → Machine → Machine
  | .remove path, s => (remove vol path s).2
  | .create path, s => (create vol path s).2

/-- What happens in a session: a request on an open file, or an edit of the tree. -/
abbrev Event (ι : Type) := (ι × Request) ⊕ Edit

/-- The program. The outcome of an edit is not looked at. -/
def serve (vol : Volume) (paths : ι → List Char) :
    Event ι → Machine × (ι → File) → Option (Outcome Error Reply) × (Machine × (ι → File)) :=
  beside (family fun i => answer vol (paths i)) fun x σ => (edit vol x σ.1, σ.2)

/-- Strings of bytes which share nothing, and to which an edit does nothing. -/
def serveViews : Event ι → (ι → View) → Option (Outcome Error Reply) × (ι → View) :=
  beside (separate View.answer) fun _ views => views

/-- A lookup has led to the entry at `home`. -/
def leadsTo (home : EntryLocator) : Outcome Error DirectoryEntry → Bool
  | .ok e => decide (e.primary = home)
  | _ => false

/-- A removal is not that of an open file, and a creation is that of a new one where there is
room. -/
def Spares (vol : Volume) : Edit → Machine × (ι → File) → Prop
  | .remove path, σ => ∀ i, leadsTo (σ.2 i).primary (lookup vol (trimSlashes path) σ.1).1 = false
  | .create path, σ => RoomFor vol path σ.1 ∧
      (lookup vol (trimSlashes path) σ.1).1 = .err .pathNotFound

/-- The events of a session are admitted where they happen. -/
def AllAdmitted (vol : Volume) (paths : ι → List Char) (events : List (Event ι))
    (σ : Machine × (ι → File)) : Prop :=
  Admits (serve vol paths) (fun x σ => x.elim (fun x => Admitted vol x.2 (σ.1, σ.2 x.1))
    (Spares vol · σ)) events σ

instance [Fintype ι] (vol : Volume) : ∀ (x : Edit) (σ : Machine × (ι → File)),
    Decidable (Spares vol x σ)
  | .remove path, σ => inferInstanceAs (Decidable (∀ i,
      leadsTo (σ.2 i).primary (lookup vol (trimSlashes path) σ.1).1 = false))
  | .create path, σ => inferInstanceAs (Decidable (RoomFor vol path σ.1 ∧ _))

instance [Fintype ι] (vol : Volume) : ∀ (x : Event ι) (σ : Machine × (ι → File)), Decidable
    (x.elim (fun x => Admitted vol x.2 (σ.1, σ.2 x.1)) (Spares vol · σ))
  | .inl x, σ => inferInstanceAs (Decidable (Admitted vol x.2 (σ.1, σ.2 x.1)))
  | .inr x, σ => inferInstanceAs (Decidable (Spares vol x σ))

instance [Fintype ι] (vol : Volume) (paths : ι → List Char) (events : List (Event ι))
    (σ : Machine × (ι → File)) : Decidable (AllAdmitted vol paths events σ) :=
  inferInstanceAs (Decidable (Admits _ _ _ _))

/-- A well-formed volume on a device without faults, on which each handle shows its view. -/
structure Serves (vol : Volume) (paths : ι → List Char) (home : ι → EntryLocator)
    (σ : Machine × (ι → File)) (views : ι → View) : Prop where
  wf : WellFormed .whole vol σ.1
  faultless : ¬ Faulty σ.1
  each : ∀ i, Serving vol (paths i) (home i) σ.1 (σ.2 i) (views i)

lemma session_refines (hhome : Function.Injective home) :
    Refines (family fun i => answer vol (paths i)) (separate View.answer)
      (fun x σ => Admitted vol x.2 (σ.1, σ.2 x.1)) (Serves vol paths home) := by
  have hfamily := @family_refines _ _ _ _ _ _ _ (fun i => answer vol (paths i)) View.answer
    (fun _ x σ => Admitted vol x σ) (fun i => Serving vol (paths i) (home i)) ?_ ?_
  · intro x σ views hserves hx
    obtain ⟨hanswer, heach⟩ := hfamily x σ views hserves.each hx
    obtain ⟨P, e, hopened⟩ := (heach x.1).opened
    exact ⟨hanswer, hopened.wf, hopened.faultless, heach⟩
  · intro i x m f view hserving hx
    obtain ⟨P, e, hopened⟩ := hserving.opened
    obtain ⟨hanswer, hserved⟩ := answer_serves hserving hopened x hx
    exact ⟨hanswer, hserved.serving hopened hserving.home⟩
  · intro i j x m f view g view' hne hserving hx hother
    obtain ⟨P, e, hopened⟩ := hserving.opened
    refine (answer_serves hserving hopened x hx).2.other hopened hother ?_
    rw [hserving.home]
    exact fun heq => hne (hhome heq)

lemma Serving.quiet {path : List Char} {home : EntryLocator} {file : File} {view : View}
    (h : Serving vol path home s file view) (ht : Quiet vol.geometry.partition s t) :
    Serving vol path home t file view := by
  obtain ⟨P, e, hopened⟩ := h.opened
  have hserved : Served vol s e view (t, file) :=
    served_kept hopened h.streams (relinked_of_quiet hopened.wf.base ht)
      (fun c _ _ lba _ => by rw [ht.sectors]) rfl h.streams.cached h.position h.inside
      (ht.sectors ▸ h.bytes)
  exact hserved.serving hopened h.home

lemma Serving.carried {path : List Char} {home : EntryLocator} {file : File} {view : View}
    {P Q : Dir} {e : DirectoryEntry} (h : Serving vol path home s file view)
    (hopened : Opened .whole vol s path file P e) (hopened' : Opened .whole vol t path file Q e)
    (hclusters : streamOf vol.geometry t.device.sectors e =
      streamOf vol.geometry s.device.sectors e)
    (hsame : ∀ c ∈ streamOf vol.geometry s.device.sectors e,
      SameCluster vol.geometry s.device.sectors t.device.sectors c) :
    Serving vol path home t file view := by
  have hvalid := hopened.valid_le
  have hclusters' : clustersOfFile vol.geometry t.device.sectors file =
      clustersOfFile vol.geometry s.device.sectors file := by
    rw [hopened.clusters_eq, hopened.clusters_eq, hclusters]
  refine ⟨⟨Q, e, hopened'⟩, h.home,
    streams_of_clusters h.streams hclusters' rfl h.streams.cached, h.position, h.inside, ?_⟩
  rw [hclusters']
  refine (extent_bytes hopened.wf.sound (by omega) fun c hc => ?_).trans h.bytes
  exact hsame c (hopened.clusters_eq _ ▸ hc)

lemma Serving.vacated {path : List Char} {home : EntryLocator} {file : File} {view : View}
    {x : DirectoryEntry} {Q : Dir} (h : Serving vol path home s file view) (hv : Vacated vol s t x)
    (hQ : InTree .whole vol.geometry s.device.sectors Q)
    (hx : HasEntry (Q.slots .whole vol.geometry s.device.sectors) x) (hne : x.primary ≠ home) :
    Serving vol path home t file view := by
  obtain ⟨P, e, hopened⟩ := h.opened
  have hwf := hopened.wf
  have hwf' := wellFormed_vacated hwf hv hQ hx
  have hfaultless := Allocator.Follows.faultless hv.follows hopened.faultless
  have hex : e ≠ x := by
    rintro rfl
    exact hne (hopened.fields.1 ▸ h.home)
  have hlookup := lookup_vacated hwf hv hQ hx hopened.healthy (healthy_of_faultless hfaultless) hex
    hopened.lookup
  obtain ⟨D, hD, he⟩ := lookup_entry hwf' hlookup
  have hbeside := (inTree_vacated hwf hv hQ hx).mp hD
  obtain ⟨hes, -⟩ := (hasEntry_vacated hwf hv hQ hx hbeside).mp he
  obtain ⟨own, howners⟩ := hwf.owners
  have hfreeable := hwf.freeable hopened.inTree hopened.entry
  refine h.carried hopened ⟨hwf', hfaultless, hlookup, hD, he, hopened.isFile, hopened.handle⟩
    (extent_vacated hv (entry_other hwf hQ hx hbeside.inTree hes hex)).1 fun c hc => ?_
  exact sameCluster_vacated hwf hQ hx hv (hfreeable.heap c hc) (hfreeable.apart c hc)
    fun hdir => file_apart hwf.sound howners hopened.inTree hopened.entry hopened.isFile hQ hdir hc

lemma Serving.made {path path' name : List Char} {home : EntryLocator} {file : File} {view : View}
    {Q : Dir} {front block back : List Slot} {x : DirectoryEntry}
    (h : Serving vol path home s file view)
    (hm : MadeAt vol s t path' name Q front block back x) : Serving vol path home t file view := by
  obtain ⟨P, e, hopened⟩ := h.opened
  have hwf := hopened.wf
  have hs := hopened.healthy
  have hfilled := hm.filled
  have hfaultless := Allocator.Follows.faultless hfilled.follows hopened.faultless
  have hfreeable := hwf.freeable hopened.inTree hopened.entry
  have hcarries := hm.carries hwf hs hm.healthy hm.none
  obtain ⟨own, howners⟩ := hwf.owners
  refine h.carried hopened ⟨wellFormed_filled hwf hfilled, hfaultless,
    hcarries.path hwf hs hopened.lookup, (inTree_filled hwf hfilled).mpr hopened.inTree,
    (hasEntry_filled hwf hfilled hopened.inTree).mpr (.inl hopened.entry), hopened.isFile,
    hopened.handle⟩ (extent_filled hwf hfilled hfreeable.heap).1 fun c hc => ?_
  refine sameCluster_filled hwf hfilled (hfreeable.heap c hc) fun hin => ?_
  exact file_apart hwf.sound howners hopened.inTree hopened.entry hopened.isFile
    hfilled.inTree hin hc

omit [DecidableEq ι] in
lemma removal_serves {path : List Char} {σ : Machine × (ι → File)}
    (h : Serves vol paths home σ views) (hpath : Spares vol (.remove path) σ) :
    Serves vol paths home ((remove vol path σ.1).2, σ.2) views := by
  obtain ⟨hwf, hfaultless, heach⟩ := h
  have hdecides := remove_decides hwf hfaultless path
  rcases hrun : remove vol path σ.1 with ⟨⟨⟩ | err | _, t⟩
  · rw [wp_ok hrun] at hdecides
    obtain ⟨e, hlookup, -⟩ := hdecides
    have hremove : (remove vol path σ.1).1 = .ok () := by rw [hrun]
    have hv := vacated_of_remove hwf (healthy_of_faultless hfaultless) hlookup hremove
    rw [hrun] at hv
    obtain ⟨Q, hQ, he⟩ := lookup_entry hwf hlookup
    refine ⟨wellFormed_vacated hwf hv hQ he, Allocator.Follows.faultless hv.follows hfaultless,
      fun i => (heach i).vacated hv hQ he ?_⟩
    have hmiss := hpath i
    rw [hlookup, (heach i).home] at hmiss
    simpa [leadsTo] using hmiss
  · rw [wp_err hrun] at hdecides
    exact ⟨wellFormed_of_quiet hwf hdecides.1, Allocator.Follows.faultless
      (wrote_of_quiet hdecides.1).follows hfaultless, fun i => (heach i).quiet hdecides.1⟩
  · unfold wp at hdecides
    rw [hrun] at hdecides
    exact hdecides.elim

omit [DecidableEq ι] in
lemma creation_serves {path : List Char} {σ : Machine × (ι → File)}
    (h : Serves vol paths home σ views) (hpath : Spares vol (.create path) σ) :
    Serves vol paths home ((create vol path σ.1).2, σ.2) views := by
  obtain ⟨hwf, hfaultless, heach⟩ := h
  have hdecides := create_decides hwf hfaultless (fun _ => hpath.1) fun e he => by
    rw [hpath.2] at he
    cases he
  rcases hrun : create vol path σ.1 with ⟨file | err | _, t⟩
  · rw [wp_ok hrun] at hdecides
    obtain ⟨Q, name, front, block, back, e, hm⟩ := hdecides
    exact ⟨wellFormed_filled hwf hm.filled, Allocator.Follows.faultless hm.filled.follows
      hfaultless,
      fun i => (heach i).made hm⟩
  · rw [wp_err hrun] at hdecides
    exact ⟨wellFormed_of_quiet hwf hdecides, Allocator.Follows.faultless
      (wrote_of_quiet hdecides).follows hfaultless, fun i => (heach i).quiet hdecides⟩
  · unfold wp at hdecides
    rw [hrun] at hdecides
    exact hdecides.elim

/-- **A session refines strings of bytes which share nothing.** -/
theorem serve_refines (hhome : Function.Injective home) : Refines (serve vol paths) serveViews
    (fun x σ => x.elim (fun x => Admitted vol x.2 (σ.1, σ.2 x.1)) (Spares vol · σ))
    (Serves vol paths home) := by
  refine (session_refines hhome).beside fun x σ views hserves hx => ?_
  cases x with
  | remove path => exact removal_serves hserves hx
  | create path => exact creation_serves hserves hx

lemma serving_of_open {path : List Char} {file : File} {bytes : List UInt8}
    (hwf : WellFormed .whole vol s)
    (hfaultless : ¬ Faulty s) (hopen : (openFile vol path s).1 = .ok file)
    (hread : (readBack vol path file.validLength s).1 = .ok bytes) :
    Serving vol path file.primary s file ⟨bytes, 0⟩ := by
  obtain ⟨e, -, -, hfile⟩ := lookup_of_open hopen
  have hrewound : rewound file = file := by
    rw [hfile]
    rfl
  obtain ⟨P, e, hopened⟩ := opened_of_run hwf hfaultless (hrewound.symm ▸ hopen)
  have hstreams := hopened.streams
  have hposition : file.position = 0 := by
    rw [← hrewound]
    rfl
  rw [hrewound] at hstreams
  refine ⟨⟨P, e, hopened⟩, rfl, hstreams, hposition, by omega, ?_⟩
  have hyields := readBack_yields hwf.ready (fun hv => hwf.table hv) hopened.healthy hopen hstreams
    hopened.room file.validLength
  rw [hread, hposition, Nat.sub_zero, min_self] at hyields
  exact (Outcome.ok.inj hyields).symm

lemma Serving.readBack {path : List Char} {home : EntryLocator} {file : File} {view : View}
    (h : Serving vol path home s file view) (n : ℕ) :
    (readBack vol path n s).1 = .ok (view.bytes.take n) := by
  obtain ⟨P, e, hopened⟩ := h.opened
  have hopen : (openFile vol path s).1 = .ok (rewound file) := by
    rw [hopened.handle]
    exact openFile_ok hopened.lookup hopened.isFile
  have hyields := readBack_yields hopened.wf.ready (fun hv => hopened.wf.table hv) hopened.healthy
    hopen hopened.streams hopened.room n
  rw [hyields, ← h.bytes]
  refine congrArg Outcome.ok ?_
  change streamBytes _ _ (clustersOfFile vol.geometry s.device.sectors file) 0
    (min n (file.validLength - 0)) = _
  rw [Nat.sub_zero]
  rcases Nat.le_total n file.validLength with hle | hle
  · rw [min_eq_left hle, take_streamBytes hle]
  · rw [min_eq_right hle, List.take_of_length_le (by simpa using hle)]

/-- **A session on open files answers as strings of bytes do**, the volume stays well-formed, and
the files can be read back. -/
theorem session_answers (vol : Volume) (s : Machine) (paths : ι → List Char) (files : ι → File)
    (contents : ι → List UInt8) (events : List (Event ι)) (hwf : WellFormed .whole vol s)
    (hfaultless : ¬ Faulty s) (hopen : ∀ i, (openFile vol (paths i) s).1 = .ok (files i))
    (hdistinct : ∀ i j, (files i).primary = (files j).primary → i = j)
    (hcontents : ∀ i, (readBack vol (paths i) (files i).validLength s).1 = .ok (contents i))
    (hadmitted : AllAdmitted vol paths events (s, files)) :
    (run (serve vol paths) events (s, files)).1 =
        (run serveViews events fun i => ⟨contents i, 0⟩).1 ∧
      WellFormed .whole vol (run (serve vol paths) events (s, files)).2.1 ∧
      ∀ i, ((run (serve vol paths) events (s, files)).2.2 i).position =
          ((run serveViews events fun i => ⟨contents i, 0⟩).2 i).position ∧
        ∀ n, (readBack vol (paths i) n (run (serve vol paths) events (s, files)).2.1).1 =
          .ok (((run serveViews events fun i => ⟨contents i, 0⟩).2 i).bytes.take n) := by
  have hstart : Serves vol paths (fun i => (files i).primary) (s, files) fun i => ⟨contents i, 0⟩ :=
    ⟨hwf, hfaultless, fun i => serving_of_open hwf hfaultless (hopen i) (hcontents i)⟩
  have hrefines : Refines (serve vol paths) serveViews _ _ := serve_refines fun i j => hdistinct i j
  obtain ⟨hanswers, hend⟩ := hrefines.run events hstart hadmitted
  exact ⟨hanswers, hend.wf, fun i => ⟨(hend.each i).position, fun n => (hend.each i).readBack n⟩⟩

end Session

/-! ### Two files -/

/-- A small volume whose root holds the file `A` of three bytes in the cluster 5 and the empty files
`B` and `C`. -/
def duo : Machine :=
  smallMachine (Image.patch smallFat 20 (leBytes 4 0xffffffff)) (sectorWith [(0, [0x0f])])
    (sectorWith ((64, Listing.setBytes { newFileSet [65] with
      firstCluster := 5, dataLength := 3, noFatChain := false } 3) ::
        (160, Listing.setBytes (newFileSet [66]) 3) ::
          (256, Listing.setBytes (newFileSet [67]) 3) :: systemSlots 0))

def duoOwner (c : ℕ) : Option Owner :=
  [none, none, some .root, some .bitmap, some .upcase, some (.entry ⟨26, 64⟩)].getD c none

set_option maxRecDepth 100000 in
lemma wellFormed_duo : WellFormed .whole smallVolume duo :=
  @small_wellFormed _ _ _ _ duoOwner 1 [Dir.root smallVolume.geometry 1] (by decide +kernel)

lemma faultless_duo : ¬ Faulty duo := by
  rintro ⟨n, h | h⟩ <;> cases h

def duoPath (i : Bool) : List Char := if i then ['B'] else ['A']

def duoFile (i : Bool) : File :=
  if i then File.ofEntry (splitEntry (newFileSet [66]) false 26 5)
  else File.ofEntry (splitEntry { newFileSet [65] with
    firstCluster := 5, dataLength := 3, noFatChain := false } false 26 2)

def duoEvents : List (Event Bool) :=
  [.inl (false, .append [1, 2]), .inl (true, .append [7]), .inr (.create ['D']),
    .inl (false, .write [9]), .inr (.remove ['/', 'C']), .inl (true, .reopen),
    .inl (false, .truncate 1), .inl (true, .read 4)]

theorem session_answers_duo :
    (Library.Runs.run (serve smallVolume duoPath) duoEvents (duo, duoFile)).1 =
        (Library.Runs.run serveViews duoEvents fun i => ⟨if i then [] else [0, 0, 0], 0⟩).1 ∧
      WellFormed .whole smallVolume
        (Library.Runs.run (serve smallVolume duoPath) duoEvents (duo, duoFile)).2.1 ∧
      ∀ i, ((Library.Runs.run (serve smallVolume duoPath) duoEvents (duo, duoFile)).2.2
        i).position =
          ((Library.Runs.run serveViews duoEvents fun i =>
            ⟨if i then [] else [0, 0, 0], 0⟩).2 i).position ∧
        ∀ n, (readBack smallVolume (duoPath i) n
            (Library.Runs.run (serve smallVolume duoPath) duoEvents (duo, duoFile)).2.1).1 =
          .ok (((Library.Runs.run serveViews duoEvents fun i =>
            ⟨if i then [] else [0, 0, 0], 0⟩).2 i).bytes.take n) :=
  session_answers smallVolume duo duoPath duoFile (fun i => if i then [] else [0, 0, 0]) duoEvents
    wellFormed_duo faultless_duo (by decide +kernel) (by decide) (by decide +kernel)
    (by decide +kernel)

end ExfatEmbedded.Sessions

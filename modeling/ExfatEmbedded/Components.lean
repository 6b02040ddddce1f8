import ExfatEmbedded.Folding
import Mathlib.Data.List.TakeWhile

/-!
The components of a path, and searches for one of them.
-/

namespace ExfatEmbedded.Components

open ExfatEmbedded.Library Exec ExfatEmbedded.Core ExfatEmbedded.Entry ExfatEmbedded.Allocation
open ExfatEmbedded.Lookup ExfatEmbedded.FileIo ExfatEmbedded.EntryWrite ExfatEmbedded.Mutation
open ExfatEmbedded.Mount ExfatEmbedded.Reading ExfatEmbedded.Scan ExfatEmbedded.Sets
open ExfatEmbedded.Listing ExfatEmbedded.ReadSafety ExfatEmbedded.MountSafety ExfatEmbedded.Tree
open ExfatEmbedded.Decoding ExfatEmbedded.Layout ExfatEmbedded.Search ExfatEmbedded.Renaming
open ExfatEmbedded.Removal ExfatEmbedded.Folding

/-! ### The same directories with another table -/

/-- The same slot, or a slot of an UpCase table both times. -/
def SameSlot (x y : Slot) : Prop :=
  x = y ∨ (byteAt x.raw 0 = 0x82 ∧ byteAt y.raw 0 = 0x82 ∧ x.raw.length = 32 ∧ y.raw.length = 32)

/-- The directories which a path may lead to. -/
inductive Reached (g : Geometry) (d : Sectors) : Directory → Prop
  | root : Reached g d (Directory.root g)
  | child {dir dir' : Directory} {n : ℕ} {e : DirectoryEntry} (h : Reached g d dir)
      (hw : Walked g d dir n) (hheap : g.InHeap (clusterOf g d dir n))
      (he : HasEntry (extentSlots g d dir (n + 1)) e) (hdir : e.directory = some dir') :
      Reached g d dir'

/-- The media have the same directories, but for slots of UpCase tables. -/
def SameDirectories (g : Geometry) (d d' : Sectors) : Prop :=
  ∀ dir, Reached g d dir → ∀ n, Walked g d dir n → g.InHeap (clusterOf g d dir n) →
    clusterOf g d' dir (n + 1) = clusterOf g d dir (n + 1) ∧
      List.Forall₂ SameSlot (extentSlots g d dir (n + 1)) (extentSlots g d' dir (n + 1))

section Transfer

variable {x y : Slot} {j j' : Judge} {error : Error}

lemma push_table {e : EntrySet} (h : SameSlot x y) :
    EntrySet.push x.raw x.loc e = EntrySet.push y.raw y.loc e := by
  rcases h with rfl | ⟨hx, hy, hlen, hlen'⟩
  · rfl
  · unfold EntrySet.push
    simp [hlen, hlen', hx, hy]

lemma step_table (h : SameSlot x y) (p : Progress (Option (Outcome Error DirectoryEntry))) :
    p.step (seek j) x = p.step (seek j) y := by
  have htype : byteAt x.raw 0 = 0 ↔ byteAt y.raw 0 = 0 := by
    rcases h with rfl | ⟨hx, hy, -, -⟩
    · rfl
    · rw [hx, hy]
  cases p with
  | going e t =>
    unfold Progress.step
    simp only [htype, push_table h]
  | stopped t => rfl
  | failed => rfl

/-- A search ends alike where the comparisons it makes are the same, but for their errors. -/
lemma sweep_transfer {xs ys : List Slot} (hslots : List.Forall₂ SameSlot xs ys)
    (hj : ∀ e, j e = .err error ∨ ∃ b, j e = .ok b ∧ j' e = .ok b)
    {p q : Progress (Option (Outcome Error DirectoryEntry))} (h : sweep (seek j) xs p = q)
    (hq : q ≠ .stopped (some (.err error))) : sweep (seek j') ys p = q := by
  induction hslots generalizing p with
  | nil => exact h
  | @cons x y xs ys hxy hslots ih =>
    change sweep (seek j) xs (p.step (seek j) x) = q at h
    change sweep (seek j') ys (p.step (seek j') y) = q
    have hstep : p.step (seek j) x = p.step (seek j') y ∨
        p.step (seek j) x = .stopped (some (.err error)) := by
      rw [step_table hxy]
      cases p with
      | stopped t => exact .inl rfl
      | failed => exact .inl rfl
      | going e t =>
        unfold Progress.step
        simp only
        split_ifs with hz
        · exact .inl rfl
        rcases EntrySet.push y.raw y.loc e with ⟨(_ | entry) | _ | _, e'⟩
        · exact .inl rfl
        · rcases hj entry with herr | ⟨b, hb, hb'⟩
          · simp [seek, herr]
          · simp [seek, hb, hb']
        · exact .inl rfl
        · exact .inl rfl
    rcases hstep with hstep | hstep
    · rw [← hstep]
      exact ih h
    · rw [hstep, sweep_stopped] at h
      exact absurd h.symm hq

variable {g : Geometry} {d d' : Sectors} {dir : Directory}

/-- A search ends alike in the same directory. -/
theorem finds_transfer {o : Outcome Error (Option DirectoryEntry)} (h : Finds g d dir j o)
    (hsame : SameDirectories g d d') (hdir : Reached g d dir)
    (hj : ∀ e, j e = .err error ∨ ∃ b, j e = .ok b ∧ j' e = .ok b) (ho : o ≠ .err error) :
    Finds g d' dir j' o := by
  have hclusters {n : ℕ} (hw : Walked g d dir n) : clusterOf g d' dir n = clusterOf g d dir n := by
    cases n with
    | zero => rw [clusterOf_zero, clusterOf_zero]
    | succ n => exact (hsame dir hdir n (walked_of_le hw (Nat.le_succ n)) (hw.heap n (by omega))).1
  have hsought {n : ℕ} (hw : Walked g d dir n)
    {q : Progress (Option (Outcome Error DirectoryEntry))}
      (hq : sought g d dir j n = q) (hne : q ≠ .stopped (some (.err error))) :
      sought g d' dir j' n = q := by
    cases n with
    | zero => exact hq
    | succ n =>
      have hslots := (hsame dir hdir n (walked_of_le hw (Nat.le_succ n)) (hw.heap n (by omega))).2
      exact sweep_transfer hslots hj hq hne
  have hwalked {n : ℕ} (hw : Walked g d dir n) : Walked g d' dir n := by
    refine ⟨fun i hi => ?_, fun i hi hfat => ?_, hw.more, hw.inside⟩
    · rw [hclusters (walked_of_le hw hi.le)]
      exact hw.heap i hi
    · rw [hclusters (walked_of_le hw hi)]
      exact hw.chain i hi hfat
  have hreaches {n : ℕ} (hn : Reaches g d dir j n) : Reaches g d' dir j' n := by
    obtain ⟨e, hgo⟩ := hn.going
    exact ⟨hwalked hn.walked, hn.first, e, hsought hn.walked hgo nofun⟩
  have henters {n : ℕ} (hn : Enters g d dir j n) : Enters g d' dir j' n := by
    refine ⟨hreaches hn.toReaches, ?_, hn.counted⟩
    rw [hclusters hn.walked]
    exact hn.heap
  have hnext {n : ℕ} (hn : Enters g d dir j n)
      {q : Progress (Option (Outcome Error DirectoryEntry))} (hq : sought g d dir j (n + 1) = q)
      (hne : q ≠ .stopped (some (.err error))) : sought g d' dir j' (n + 1) = q :=
    sweep_transfer (hsame dir hdir n hn.walked hn.heap).2 hj hq hne
  cases h with
  | @stopped n t hn hstop =>
    refine .stopped (henters hn) (hnext hn hstop fun heq => ho ?_)
    rw [Progress.stopped.inj heq]
    rfl
  | failed hn hfail => exact .failed (henters hn) (hnext hn hfail nofun)
  | @ended n e hn hgo hend =>
    refine .ended (henters hn) (hnext hn hgo nofun) ?_
    unfold Search.EndsBehind at hend ⊢
    rwa [(hsame dir hdir n hn.walked hn.heap).1]
  | @broken n hn hbad =>
    refine .broken (hreaches hn) ?_
    rwa [hclusters hn.walked]

end Transfer

/-! ### One component of a path -/

section Names

variable {name : List Char} {written : ℕ} {out : List ℕ}

lemma writeUnits_long (h : 255 < written + (utf16Of name).length) (hwritten : written ≤ 255) :
    (writeUnits name written out).1 = .err .nameTooLong := by
  induction name generalizing written out with
  | nil =>
    simp [utf16Of] at h
    omega
  | cons c name ih =>
    have hcons : utf16Of (c :: name) = encodeUtf16 c ++ utf16Of name := rfl
    rw [hcons, List.length_append] at h
    unfold writeUnits
    simp only
    split_ifs with hlong
    · rfl
    · exact ih (by omega) (by omega)

lemma utf8ToUtf16_invalid (h : ¬ ValidName name) :
    ∃ x, x ≠ Error.upcaseTableCorrupt ∧ ∀ out, (utf8ToUtf16 name out).1 = .err x := by
  by_cases hplain : name = [] ∨ name = ['.'] ∨ name = ['.', '.'] ∨
      name.any (fun c => c = '\x00' || c = '/' || c = '\\')
  · refine ⟨.invalidPath, by decide, fun out => ?_⟩
    unfold utf8ToUtf16
    rw [if_pos hplain]
    rfl
  · refine ⟨.nameTooLong, by decide, fun out => ?_⟩
    have hlong : 255 < (utf16Of name).length := by
      by_contra hle
      exact h ⟨hplain, by omega⟩
    unfold utf8ToUtf16
    rw [if_neg hplain]
    exact writeUnits_long (by omega) (Nat.zero_le _)

lemma utf16Of_ascii (h : ∀ c ∈ name, c.toNat ≤ 0x7f) : ∀ u ∈ utf16Of name, u ≤ 0x7f := by
  intro u hu
  obtain ⟨c, hc, huc⟩ := List.mem_flatMap.mp hu
  have hlow := h c hc
  unfold encodeUtf16 at huc
  rw [if_pos (by omega), List.mem_singleton] at huc
  omega

end Names

/-- Look for the entry of one component. -/
def seekName (vol : Volume) (dir : Directory) (name : List Char) : WsM (Option DirectoryEntry) := do
  let wantedLen ← onUtf16 (utf8ToUtf16 name)
  findChild vol dir wantedLen

section Lookups

variable {vol : Volume} {dir : Directory} {name next : List Char} {rest : List (List Char)}

lemma lookupFrom_nil : lookupFrom vol dir name [] =
    seekName vol dir name >>= fun o => okOr .pathNotFound o := by
  unfold lookupFrom seekName
  rw [bind_assoc]

lemma lookupFrom_cons : lookupFrom vol dir name (next :: rest) =
    seekName vol dir name >>= fun o => okOr .pathNotFound o >>= fun entry =>
      okOr .notDirectory entry.directory >>= fun dir => lookupFrom vol dir next rest := by
  rw [lookupFrom]
  unfold seekName
  rw [bind_assoc]

/-- What a lookup does with the entry of a component. -/
def goOn (vol : Volume) : List (List Char) → DirectoryEntry → WsM DirectoryEntry
  | [], entry => pure entry
  | next :: rest, entry =>
    okOr .notDirectory entry.directory >>= fun dir => lookupFrom vol dir next rest

lemma lookupFrom_goOn : lookupFrom vol dir name rest =
    seekName vol dir name >>= fun o => okOr .pathNotFound o >>= goOn vol rest := by
  cases rest with
  | nil =>
    rw [lookupFrom_nil, show goOn vol [] = pure from rfl]
    simp only [bind_pure]
  | cons next rest => exact lookupFrom_cons

end Lookups

/-- A search for the component meets a name which goes beyond ASCII behind units which agree. -/
def BlockedIn (g : Geometry) (d : Sectors) (dir : Directory) (name : List Char) : Prop :=
  ValidName name ∧ ∃ es e, Meets g d dir es e ∧ (∀ x ∈ es, ¬ SameAscii (utf16Of name) x) ∧
    Blocks (utf16Of name) e

/-- The first entry with the name of the component. -/
def Leads (g : Geometry) (d : Sectors) (dir : Directory) (name : List Char) (e : DirectoryEntry) :
    Prop :=
  ValidName name ∧ ∃ es, Meets g d dir es e ∧ (∀ x ∈ es, ¬ SameAscii (utf16Of name) x) ∧
    SameAscii (utf16Of name) e

section Component

variable {vol vol' : Volume} {s s' : Machine} {dir : Directory} {name : List Char}

/-- A state from which a component is looked for. -/
structure Idle (vol : Volume) (s : Machine) (t : Machine × Workspace) : Prop where
  calm : Calm vol s t
  idle : t.2.entrySet.secondaryLeft = 0

lemma idle_new (vol : Volume) (s : Machine) : Idle vol s (s, Workspace.new) := ⟨calm_new s, rfl⟩

lemma seekName_finds (hready : Ready vol.geometry s)
    (htable : vol.upcaseValid = true → TableSound vol.geometry vol.upcase) (hs : Healthy s)
    (hname : ValidName name) {t : Machine × Workspace} (ht : Idle vol s t) :
    wp (seekName vol dir name)
      (fun o u => Finds vol.geometry s.device.sectors dir (judge vol s (utf16Of name)) (.ok o) ∧
        ∀ e, o = some e → Idle vol s u)
      (fun x _ => Finds vol.geometry s.device.sectors dir (judge vol s (utf16Of name))
        (.err x)) t := by
  unfold seekName
  rw [wp_bind]
  have hunits : wp (onUtf16 (utf8ToUtf16 name))
      (fun len u => u.2.utf16.take len = utf16Of name ∧ u.2.entrySet = t.2.entrySet)
      (fun _ _ => False) t := by
    rw [wp_onUtf16]
    exact wp_mono _ (utf8ToUtf16_takes hname) (fun _ _ h => ⟨h.2, rfl⟩) fun _ _ h => h
  refine wp_mono _ (wp_and _ hunits (safe_utf8ToUtf16 name t ht.calm)) ?_ fun _ _ h => h.1.elim
  rintro len u ⟨⟨htake, hset⟩, hcalm⟩
  have hidle : u.2.entrySet.secondaryLeft = 0 := hset ▸ ht.idle
  refine wp_mono _ (wp_and _ (findChild_finds hready htable hs hcalm hidle htake)
    (findChild_found hready htable hcalm hidle)) ?_ fun _ _ h => h.1.2
  rintro o v ⟨⟨hv, hfinds⟩, -, hfound⟩
  refine ⟨hfinds, fun e he => ⟨hv, ?_⟩⟩
  obtain ⟨n, hn⟩ := hfound e he
  exact hn.idle

lemma seekName_invalid (hname : ¬ ValidName name) : ∃ x, x ≠ Error.upcaseTableCorrupt ∧
    ∀ (vol : Volume) (t : Machine × Workspace), (seekName vol dir name t).1 = .err x := by
  obtain ⟨x, hx, hrun⟩ := utf8ToUtf16_invalid hname
  refine ⟨x, hx, fun vol t => ?_⟩
  have herr : onUtf16 (utf8ToUtf16 name) t =
      (.err x, (t.1, { t.2 with utf16 := (utf8ToUtf16 name t.2.utf16).2 })) := by
    unfold onUtf16
    rw [run_eq (hrun t.2.utf16)]
  unfold seekName
  rw [bind_err herr]

section Verdicts

variable {e : DirectoryEntry} {o : Outcome Error (Option DirectoryEntry)}
  (hvalid : vol.upcaseValid = false) (hascii : ∀ c ∈ name, c.toNat ≤ 0x7f)

include hvalid hascii

lemma judge_false_iff : judge vol s (utf16Of name) e = .ok false ↔
    ¬ SameAscii (utf16Of name) e ∧ ¬ Blocks (utf16Of name) e := by
  rcases @judge_damaged vol s (utf16Of name) e hvalid (utf16Of_ascii hascii) with
    ⟨h, hsame⟩ | ⟨h, hnot⟩ | ⟨h, -, hblocks⟩
  · simp only [h, hsame, not_true_eq_false, false_and, iff_false]
    rintro ⟨⟩
  · exact iff_of_true h hnot
  · simp only [h, hblocks, not_true_eq_false, and_false, iff_false]
    rintro ⟨⟩

lemma verdict_same (h : SameAscii (utf16Of name) e) :
    verdict (seek (judge vol s (utf16Of name)) e none).2 = .ok (some e) := by
  rcases @judge_damaged vol s (utf16Of name) e hvalid (utf16Of_ascii hascii) with
    ⟨htrue, -⟩ | ⟨-, hnot, -⟩ | ⟨-, hnot, -⟩
  · simp only [seek, htrue, verdict]
  · exact absurd h hnot
  · exact absurd h hnot

lemma verdict_blocks (h : Blocks (utf16Of name) e) :
    verdict (seek (judge vol s (utf16Of name)) e none).2 = .err .upcaseTableCorrupt := by
  rcases @judge_damaged vol s (utf16Of name) e hvalid (utf16Of_ascii hascii) with
    ⟨-, hsame⟩ | ⟨-, -, hnot⟩ | ⟨herr, -, -⟩
  · exact absurd h hsame.not_blocks
  · exact absurd h hnot
  · simp only [seek, herr, verdict]

lemma finds_behind {es : List DirectoryEntry}
    (h : Finds vol.geometry s.device.sectors dir (judge vol s (utf16Of name)) o)
    (hmeets : Meets vol.geometry s.device.sectors dir es e)
    (hes : ∀ y ∈ es, ¬ SameAscii (utf16Of name) y)
    (he : SameAscii (utf16Of name) e ∨ Blocks (utf16Of name) e) :
    o = .err .upcaseTableCorrupt ∨
      o = verdict (seek (judge vol s (utf16Of name)) e none).2 := by
  have hnot : judge vol s (utf16Of name) e ≠ .ok false := fun hfalse =>
    have hneither := (judge_false_iff hvalid hascii).mp hfalse
    he.elim hneither.1 hneither.2
  obtain ⟨front, y, hfirst, hfront, hy, hmem | rfl⟩ := hmeets.first hnot
  · have hblocks : Blocks (utf16Of name) y := by
      by_contra hno
      exact hy ((judge_false_iff hvalid hascii).mpr ⟨hes y hmem, hno⟩)
    exact .inl ((h.unique (hfirst.finds hfront hy)).trans (verdict_blocks hvalid hascii hblocks))
  · exact .inr (h.unique (hfirst.finds hfront hy))

lemma finds_cases (hname : ValidName name)
    (h : Finds vol.geometry s.device.sectors dir (judge vol s (utf16Of name)) o) :
    o = .ok none ∨ o = .err .corrupt ∨
      (∃ e, o = .ok (some e) ∧ Leads vol.geometry s.device.sectors dir name e) ∨
      (o = .err .upcaseTableCorrupt ∧ BlockedIn vol.geometry s.device.sectors dir name) := by
  rcases h.meets with hnone | hcorrupt | ⟨es, x, hx, hall, hjx, ho⟩
  · exact .inl hnone
  · exact .inr (.inl hcorrupt)
  have hother : ∀ y ∈ es, ¬ SameAscii (utf16Of name) y := fun y hy =>
    ((judge_false_iff hvalid hascii).mp (hall y hy)).1
  right
  right
  by_cases hsame : SameAscii (utf16Of name) x
  · exact .inl ⟨x, ho.trans (verdict_same hvalid hascii hsame), hname, es, hx, hother, hsame⟩
  · have hblocks : Blocks (utf16Of name) x := by
      by_contra hno
      exact hjx ((judge_false_iff hvalid hascii).mpr ⟨hsame, hno⟩)
    exact .inr ⟨ho.trans (verdict_blocks hvalid hascii hblocks), hname, es, x, hx, hother, hblocks⟩

lemma finds_blocked (h : Finds vol.geometry s.device.sectors dir (judge vol s (utf16Of name)) o)
    (hb : BlockedIn vol.geometry s.device.sectors dir name) : o = .err .upcaseTableCorrupt := by
  obtain ⟨-, es, e, hmeets, hes, hblocks⟩ := hb
  rcases finds_behind hvalid hascii h hmeets hes (.inr hblocks) with ho | ho
  · exact ho
  · exact ho.trans (verdict_blocks hvalid hascii hblocks)

end Verdicts

lemma finds_damaged (hvalid : vol.upcaseValid = false) (hascii : ∀ c ∈ name, c.toNat ≤ 0x7f)
    (hname : ValidName name) {o : Outcome Error (Option DirectoryEntry)}
    (h : Finds vol.geometry s.device.sectors dir (judge vol s (utf16Of name)) o) :
    (BlockedIn vol.geometry s.device.sectors dir name ∧ o = .err .upcaseTableCorrupt) ∨
      (¬ BlockedIn vol.geometry s.device.sectors dir name ∧ o ≠ .err .upcaseTableCorrupt ∧
        ∀ e, o = .ok (some e) ↔ Leads vol.geometry s.device.sectors dir name e) := by
  by_cases hb : BlockedIn vol.geometry s.device.sectors dir name
  · exact .inl ⟨hb, finds_blocked hvalid hascii h hb⟩
  have hcases := finds_cases hvalid hascii hname h
  have hne : o ≠ .err .upcaseTableCorrupt := by
    rintro rfl
    rcases hcases with ho | ho | ⟨e, ho, -⟩ | ⟨-, hblocked⟩
    · cases ho
    · cases ho
    · cases ho
    · exact hb hblocked
  refine .inr ⟨hb, hne, fun e => ⟨?_, ?_⟩⟩
  · rintro rfl
    rcases hcases with ho | ho | ⟨e', ho, hleads⟩ | ⟨ho, -⟩
    · cases ho
    · cases ho
    · cases ho
      exact hleads
    · cases ho
  · rintro ⟨-, es, hmeets, hes, hsame⟩
    rcases finds_behind hvalid hascii h hmeets hes (.inl hsame) with ho | ho
    · exact absurd ho hne
    · exact ho.trans (verdict_same hvalid hascii hsame)

lemma Leads.reached {g : Geometry} {d : Sectors} {e : DirectoryEntry} {dir' : Directory}
    (h : Leads g d dir name e) (hreached : Reached g d dir) (hdir : e.directory = some dir') :
    Reached g d dir' := by
  obtain ⟨-, es, ⟨n, pre, e0, -, hw, hheap, -, hpre, hlist⟩, -, -⟩ := h
  have hlen : ∀ x ∈ pre, x.raw.length = 32 := fun x hx => extentSlots_length32 (hpre.subset hx)
  obtain ⟨front, prim, stream, names, post, e1, es1, hsplit⟩ := split_of_mem (x := e) hlen
    (.inr ⟨e0, hlist⟩) (by simp)
  have hset : HasEntry pre e := by
    refine ⟨prim, stream, names, ⟨hsplit.isSet, ?_⟩, hsplit.entry⟩
    rw [hsplit.slots]
    exact ⟨front, post, rfl⟩
  exact .child hreached hw hheap (hset.mono hpre.isInfix) hdir

end Component

/-! ### Paths -/

section Segments

variable {path a b : List Char}

lemma segments_append (a b : List Char) : segments (a ++ '/' :: b) = segments a ++ segments b := by
  unfold segments
  rw [List.splitOn_append_cons_self, List.filter_append]

lemma segments_dropWhile (path : List Char) : segments (path.dropWhile (· = '/')) =
    segments path := by
  induction path with
  | nil => rfl
  | cons c path ih =>
    by_cases hc : c = '/'
    · subst hc
      have happ := segments_append [] path
      rw [List.nil_append] at happ
      rw [List.dropWhile_cons_of_pos (by simp), ih, happ]
      rfl
    · rw [List.dropWhile_cons_of_neg (by simpa using hc)]

lemma segments_dropWhile_reverse (path : List Char) :
    segments (path.reverse.dropWhile (· = '/')).reverse = segments path := by
  induction path using List.reverseRecOn with
  | nil => rfl
  | append_singleton path c ih =>
    rw [List.reverse_append, List.reverse_singleton, List.singleton_append]
    by_cases hc : c = '/'
    · subst hc
      rw [List.dropWhile_cons_of_pos (by simp), ih, segments_append]
      exact (List.append_nil _).symm
    · rw [List.dropWhile_cons_of_neg (by simpa using hc), List.reverse_cons, List.reverse_reverse]

lemma segments_trimSlashes (path : List Char) : segments (trimSlashes path) = segments path := by
  unfold trimSlashes
  rw [segments_dropWhile_reverse, segments_dropWhile]

lemma eq_of_rsplitOnce (h : rsplitOnce path = some (a, b)) : path = a ++ '/' :: b := by
  unfold rsplitOnce at h
  split_ifs at h with hslash
  cases h
  have hsplit := @List.takeWhile_append_dropWhile _ (fun c => decide (c ≠ '/')) path.reverse
  rcases hrest : path.reverse.dropWhile (fun c => decide (c ≠ '/')) with _ | ⟨c, rest⟩
  · rw [List.dropWhile_eq_nil_iff] at hrest
    have := hrest '/' (by simpa using hslash)
    simp at this
  · have hc : c = '/' := by
      have hhead := @List.head_dropWhile_not _ (fun c => decide (c ≠ '/')) path.reverse
        (by rw [hrest]; simp)
      simp only [hrest, List.head_cons, decide_eq_false_iff_not, ne_eq, not_not] at hhead
      exact hhead
    subst hc
    rw [hrest] at hsplit
    have hrev := congrArg List.reverse hsplit
    rw [List.reverse_append, List.reverse_cons, List.reverse_reverse] at hrev
    rw [List.tail_cons]
    simpa using hrev.symm

lemma mem_of_splitOn {seg : List Char} {c : Char} (hseg : seg ∈ path.splitOn '/') (hc : c ∈ seg) :
    c ∈ path := by
  induction path generalizing seg with
  | nil =>
    rw [List.splitOn_nil, List.mem_singleton] at hseg
    subst hseg
    exact hc
  | cons x path ih =>
    rw [List.splitOn_cons_eq_if_modifyHead] at hseg
    split_ifs at hseg
    · rcases List.mem_cons.mp hseg with rfl | hseg
      · cases hc
      · exact List.mem_cons_of_mem _ (ih hseg hc)
    · rcases hsplit : path.splitOn '/' with _ | ⟨first, rest⟩
      · rw [hsplit] at hseg
        cases hseg
      · rw [hsplit, List.modifyHead_cons] at hseg
        rw [hsplit] at ih
        rcases List.mem_cons.mp hseg with rfl | hseg
        · rcases List.mem_cons.mp hc with rfl | hc
          · exact List.mem_cons_self
          · exact List.mem_cons_of_mem _ (ih List.mem_cons_self hc)
        · exact List.mem_cons_of_mem _ (ih (List.mem_cons_of_mem _ hseg) hc)

lemma segments_ascii (h : ∀ c ∈ path, c.toNat ≤ 0x7f) :
    ∀ name ∈ segments path, ∀ c ∈ name, c.toNat ≤ 0x7f :=
  fun _ hname c hc => h c (mem_of_splitOn (List.mem_filter.mp hname).1 hc)

end Segments

end ExfatEmbedded.Components

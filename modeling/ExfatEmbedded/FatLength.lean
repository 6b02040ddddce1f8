import ExfatEmbedded.Formatted

/-!
The search for the length of the FAT.

The length a round asks for falls by one, now and then, while the length it is given grows by one.
The rounds settle, unless the fall lies just where the two would meet.
-/

namespace ExfatEmbedded.FatLength

open ExfatEmbedded.Library Exec ExfatEmbedded.Core ExfatEmbedded.Format ExfatEmbedded.Formatted
open ExfatEmbedded.FormatMedia ExfatEmbedded.StreamSafety

/-- The length of the FAT for the clusters which are left behind one of `fat` sectors. -/
def neededFat (sectors spc fat : ℕ) : ℕ := (((sectors - (24 + fat)) / spc + 2) * 4 + 511) / 512

/-- The one length at which the rounds can settle. -/
def settledFat (sectors spc : ℕ) : ℕ := (sectors - 24 + 129 * spc) / (128 * spc + 1)

/-- The partition has a FAT length which asks for itself. -/
def Settles (sectors : ℕ) : Prop :=
  ¬ (128 * clusterSectors sectors + 1) ∣ sectors + clusterSectors sectors - 24

instance (sectors : ℕ) : Decidable (Settles sectors) := inferInstanceAs (Decidable (¬ _))

/-- The sizes of a partition. -/
structure Sized (sectors : ℕ) : Prop where
  small : 536 ≤ sectors
  large : sectors < 2 ^ 32

section Rounds

variable {sectors fat : ℕ} {s : Machine}

lemma clusterSectors_sizes (sectors : ℕ) :
    clusterSectors sectors = 1 ∧ sectors < 131072 ∨
      clusterSectors sectors = 16 ∧ 131072 ≤ sectors ∧ sectors < 1048576 ∨
      clusterSectors sectors = 64 ∧ 1048576 ≤ sectors := by
  unfold clusterSectors
  split_ifs <;> omega

/-- The lengths the search has come to before round `j`. -/
def Near (sectors spc : ℕ) : ℕ → ℕ → Prop
  | 0, fat => fat = 1
  | 1, fat => settledFat sectors spc ≤ fat ∧ fat ≤ settledFat sectors spc + 128
  | 2, fat => fat ≤ settledFat sectors spc ∧ settledFat sectors spc ≤ fat + 1
  | 3, fat => fat ≤ settledFat sectors spc + 1 ∧ neededFat sectors spc fat = settledFat sectors spc
  | 4, fat => fat = settledFat sectors spc
  | _, _ => False

/-- The cluster sizes which the formatter chooses, with the sizes of their partitions. -/
def SizedBy (sectors spc : ℕ) : Prop :=
  spc = 1 ∧ sectors < 131072 ∨ spc = 16 ∧ sectors < 1048576 ∨ spc = 64

lemma sizedBy_clusterSectors (sectors : ℕ) : SizedBy sectors (clusterSectors sectors) := by
  rcases clusterSectors_sizes sectors with ⟨hspc, hlt⟩ | ⟨hspc, -, hlt⟩ | ⟨hspc, -⟩
  · exact .inl ⟨hspc, hlt⟩
  · exact .inr (.inl ⟨hspc, hlt⟩)
  · exact .inr (.inr hspc)

lemma SizedBy.pos {spc : ℕ} (h : SizedBy sectors spc) : 0 < spc := by
  rcases h with ⟨rfl, -⟩ | ⟨rfl, -⟩ | rfl <;> decide

/-- The length asked for, by the number of sectors behind the FAT. -/
lemma lt_neededFat_iff {spc : ℕ} (hpos : 0 < spc) (fat p k k' : ℕ) :
    p + k < neededFat sectors spc fat + k' ↔
      128 * spc * p + 128 * spc * k ≤ sectors - (24 + fat) + spc + 128 * spc * k' := by
  have hclusters : p + k < neededFat sectors spc fat + k' ↔
      128 * (p + k) ≤ (sectors - (24 + fat) + spc + 128 * k' * spc) / spc := by
    rw [Nat.add_mul_div_right _ _ hpos, Nat.add_div_right _ hpos]
    unfold neededFat
    omega
  rw [hclusters, Nat.le_div_iff_mul_le hpos, Nat.mul_right_comm, Nat.mul_right_comm 128 k',
    Nat.mul_add]

lemma settledFat_pos {spc : ℕ} (hn : Sized sectors) (hspc : SizedBy sectors spc) :
    0 < settledFat sectors spc ∧ settledFat sectors spc ≤ 128 * (128 * spc) := by
  have hsmall := hn.small
  have hlarge := hn.large
  unfold settledFat
  rcases hspc with ⟨rfl, hlt⟩ | ⟨rfl, hlt⟩ | rfl <;> omega

lemma settledFat_fits {spc : ℕ} (hn : Sized sectors) (hspc : SizedBy sectors spc) :
    settledFat sectors spc + 152 ≤ sectors := by
  have hsmall := hn.small
  unfold settledFat
  rcases hspc with ⟨rfl, -⟩ | ⟨rfl, -⟩ | rfl <;> omega

/-- The division which gives the settled length, which is `p + 1`. -/
structure Divided (sectors spc p r : ℕ) : Prop where
  settled : settledFat sectors spc = p + 1
  short : p < 128 * (128 * spc)
  pos : 0 < r
  le : r ≤ 128 * spc + 1
  sum : sectors + spc = 24 + 128 * spc * p + p + r
  dvd : (128 * spc + 1) ∣ sectors + spc - 24 ↔ r = 128 * spc + 1
  fits : p + 153 ≤ sectors

lemma exists_divided {spc : ℕ} (hn : Sized sectors) (hspc : SizedBy sectors spc) :
    ∃ p r, Divided sectors spc p r := by
  obtain ⟨hpos, hle⟩ := settledFat_pos hn hspc
  have hfits := settledFat_fits hn hspc
  have hsmall := hn.small
  obtain ⟨p, hp⟩ : ∃ p, settledFat sectors spc = p + 1 := ⟨_, (Nat.succ_pred_eq_of_pos hpos).symm⟩
  have hmod := Nat.mod_lt (sectors - 24 + 129 * spc) (Nat.succ_pos (128 * spc))
  have hdiv := Nat.div_add_mod (sectors - 24 + 129 * spc) (128 * spc + 1)
  change (128 * spc + 1) * settledFat sectors spc + _ = _ at hdiv
  rw [hp, Nat.mul_add, Nat.add_mul, Nat.one_mul] at hdiv
  generalize hr : (sectors - 24 + 129 * spc) % (128 * spc + 1) = r at hmod hdiv
  have hsum : sectors + spc - 24 = (128 * spc + 1) * p + (r + 1) := by
    rw [Nat.add_mul, Nat.one_mul]
    omega
  refine ⟨p, r + 1, hp, by omega, Nat.succ_pos r, by omega, by omega, ?_, by omega⟩
  rw [hsum, Nat.dvd_add_right (Nat.dvd_mul_right _ p)]
  refine ⟨fun h => ?_, fun h => h ▸ Nat.dvd_refl _⟩
  have := Nat.le_of_dvd (Nat.succ_pos r) h
  omega

lemma near_step {spc j : ℕ} (hn : Sized sectors) (hspc : SizedBy sectors spc)
    (hs : ¬ (128 * spc + 1) ∣ sectors + spc - 24) (h : Near sectors spc j fat) :
    neededFat sectors spc fat = fat ∨
      Near sectors spc (j + 1) (neededFat sectors spc fat) := by
  have hpos := hspc.pos
  obtain ⟨p, r, hdivided⟩ := exists_divided hn hspc
  have hneeded (fat : ℕ) := @lt_neededFat_iff sectors spc hpos fat p
  obtain ⟨hsettled, hp, hr, hle, hsum, hdvd, hfits⟩ := hdivided
  rw [hdvd] at hs
  generalize hK : 128 * spc = K at *
  match j, h with
  | 0, h =>
    obtain rfl : fat = 1 := h
    have hlow := hneeded 1 0 0
    have hhigh := hneeded 1 129 0
    refine .inr ⟨?_, ?_⟩ <;> rw [hsettled] <;> omega
  | 1, h =>
    obtain ⟨hge, hle⟩ := h
    rw [hsettled] at hge hle
    have hlow := hneeded fat 0 1
    have hhigh := hneeded fat 1 0
    refine .inr ⟨?_, ?_⟩ <;> rw [hsettled] <;> omega
  | 2, h =>
    obtain ⟨hle, hge⟩ := h
    rw [hsettled] at hle hge
    have hlow := hneeded fat 0 0
    have hhigh := hneeded fat 1 0
    have hfar := hneeded fat 2 0
    have hlow' := hneeded (neededFat sectors spc fat) 0 0
    have hhigh' := hneeded (neededFat sectors spc fat) 1 0
    by_cases heq : fat = p + 1
    · left
      omega
    · refine .inr ⟨?_, ?_⟩ <;> rw [hsettled] <;> omega
  | 3, h => exact .inr h.2
  | 4, h =>
    obtain rfl : fat = settledFat sectors spc := h
    rw [hsettled]
    have hlow := hneeded (p + 1) 0 0
    have hhigh := hneeded (p + 1) 1 0
    left
    omega
  | _ + 5, h => exact h.elim

/-- Where no length settles, the search goes between two of them. -/
def Circles (sectors spc : ℕ) : ℕ → ℕ → Prop
  | 0, fat => fat = 1
  | 1, fat => settledFat sectors spc ≤ fat ∧ fat ≤ settledFat sectors spc + 128
  | _, fat => settledFat sectors spc ≤ fat ∧ fat ≤ settledFat sectors spc + 1

lemma circles_step {spc j : ℕ} (hn : Sized sectors) (hspc : SizedBy sectors spc)
    (hs : (128 * spc + 1) ∣ sectors + spc - 24) (h : Circles sectors spc j fat) :
    neededFat sectors spc fat ≠ fat ∧
      Circles sectors spc (j + 1) (neededFat sectors spc fat) := by
  have hpos := hspc.pos
  obtain ⟨p, r, hdivided⟩ := exists_divided hn hspc
  have hneeded (fat : ℕ) := @lt_neededFat_iff sectors spc hpos fat p
  obtain ⟨hsettled, hp, -, -, hsum, hdvd, hfits⟩ := hdivided
  rw [hdvd] at hs
  generalize hK : 128 * spc = K at *
  have hlow := hneeded fat 0 0
  have hhigh := hneeded fat 1 0
  have hfar := hneeded fat 2 0
  match j, h with
  | 0, h =>
    obtain rfl : fat = 1 := h
    have hbound := hneeded 1 129 0
    refine ⟨by omega, ?_, ?_⟩ <;> rw [hsettled] <;> omega
  | 1, h =>
    obtain ⟨hge, hle⟩ := h
    rw [hsettled] at hge hle
    refine ⟨by omega, ?_, ?_⟩ <;> rw [hsettled] <;> omega
  | _ + 2, h =>
    obtain ⟨hge, hle⟩ := h
    rw [hsettled] at hge hle
    refine ⟨by omega, ?_, ?_⟩ <;> rw [hsettled] <;> omega

lemma Near.fits {spc j : ℕ} (hn : Sized sectors) (hspc : SizedBy sectors spc)
    (h : Near sectors spc j fat) : 24 + fat ≤ sectors := by
  have hsmall := hn.small
  have hfits := settledFat_fits hn hspc
  match j, h with
  | 0, h => simp only [Near] at h; omega
  | 1, h => simp only [Near] at h; omega
  | 2, h => simp only [Near] at h; omega
  | 3, h => simp only [Near] at h; omega
  | 4, h => simp only [Near] at h; omega
  | _ + 5, h => exact h.elim

lemma Circles.fits {spc j : ℕ} (hn : Sized sectors) (hspc : SizedBy sectors spc)
    (h : Circles sectors spc j fat) : 24 + fat ≤ sectors := by
  have hsmall := hn.small
  have hfits := settledFat_fits hn hspc
  match j, h with
  | 0, h => simp only [Circles] at h; omega
  | 1, h => simp only [Circles] at h; omega
  | _ + 2, h => simp only [Circles] at h; omega

lemma eq_settledFat {spc : ℕ} (hspc : SizedBy sectors spc)
    (hfit : 24 + fat ≤ sectors) (h : neededFat sectors spc fat = fat) :
    fat = settledFat sectors spc := by
  unfold neededFat at h
  unfold settledFat
  rcases hspc with ⟨rfl, -⟩ | ⟨rfl, -⟩ | rfl <;> omega

/-! ### The rounds of the formatter -/

/-- The layout with the length `fat`. -/
def layoutOf (sectors spc fat : ℕ) : ℕ × ℕ × ℕ := (fat, 24 + fat, (sectors - (24 + fat)) / spc)

lemma layoutRound_settles {spc : ℕ} (hn : Sized sectors) (hspc : SizedBy sectors spc)
    (hfit : 24 + fat ≤ sectors) : wp (layoutRound sectors spc fat) (fun r t => t = s ∧
      r = if neededFat sectors spc fat = fat then .inl (layoutOf sectors spc fat)
        else .inr (neededFat sectors spc fat)) (fun _ _ => False) s := by
  have hlarge := hn.large
  have hpos := hspc.pos
  have hheap : checkedAdd32 fatOffset fat = some (24 + fat) := if_pos (by
    unfold fatOffset bootSectors
    omega)
  have hroom : checkedSub sectors (24 + fat) = some (sectors - (24 + fat)) := if_pos hfit
  have hle := Nat.div_le_self (sectors - (24 + fat)) spc
  have hclusters : (sectors - (24 + fat)) / spc % 2 ^ 32 = (sectors - (24 + fat)) / spc :=
    Nat.mod_eq_of_lt (by omega)
  have hneeded : (((sectors - (24 + fat)) / spc + 2) * 4 + 512 - 1) / 512 % 2 ^ 32 =
      neededFat sectors spc fat := Nat.mod_eq_of_lt (by omega)
  simp only [layoutRound, wp_bind, wp_okOr, wp_div, wp_u32, wp_divCeil, wp_ite, wp_pure, hheap]
  refine ⟨?_, fun h => absurd h (Option.some_ne_none _)⟩
  rintro heap ⟨⟩
  rw [hroom]
  refine ⟨?_, fun h => absurd h (Option.some_ne_none _)⟩
  rintro room ⟨⟩
  rw [hclusters, hneeded]
  refine ⟨hpos.ne', by omega, by decide, fun hself => ⟨trivial, ?_⟩, fun hself => ⟨trivial, ?_⟩⟩
  · rw [if_pos hself]
    rfl
  · rw [if_neg hself]

theorem layout_settles {spc : ℕ} (hn : Sized sectors) (hspc : SizedBy sectors spc)
    (hs : ¬ (128 * spc + 1) ∣ sectors + spc - 24) :
    layout sectors spc s = (.ok (layoutOf sectors spc (settledFat sectors spc)), s) := by
  have hrun : wp (layout sectors spc) (fun r t => t = s ∧
      r = layoutOf sectors spc (settledFat sectors spc)) (fun _ _ => False) s := by
    unfold layout
    rw [wp_bind]
    refine wp_loop_post (fun j fat t => Near sectors spc j fat ∧ t = s) ⟨rfl, rfl⟩ ?_ ?_
    · rintro j fat t - - ⟨hnear, rfl⟩
      have hfit := hnear.fits hn hspc
      refine wp_mono _ (layoutRound_settles hn hspc hfit) ?_ fun _ _ h => h
      rintro r u ⟨rfl, rfl⟩
      by_cases hself : neededFat sectors spc fat = fat
      · rw [if_pos hself, ← eq_settledFat hspc hfit hself]
        exact ⟨rfl, rfl⟩
      · rw [if_neg hself]
        exact ⟨(near_step hn hspc hs hnear).resolve_left hself, rfl⟩
    · rintro fat t ⟨hnear, -⟩
      exact hnear.elim
  obtain ⟨r, t, hlayout, rfl, rfl⟩ := exists_of_wp hrun
  exact hlayout

theorem layout_circles {spc : ℕ} (hn : Sized sectors) (hspc : SizedBy sectors spc)
    (hs : (128 * spc + 1) ∣ sectors + spc - 24) : layout sectors spc s = (.err .corrupt, s) := by
  have hrun : wp (layout sectors spc) (fun _ _ => False) (fun e t => e = .corrupt ∧ t = s) s := by
    unfold layout
    rw [wp_bind]
    refine wp_loop_post (fun j fat t => Circles sectors spc j fat ∧ t = s) ⟨rfl, rfl⟩ ?_ ?_
    · rintro j fat t - - ⟨hcircles, rfl⟩
      refine wp_mono _ (layoutRound_settles hn hspc (hcircles.fits hn hspc)) ?_ fun _ _ h => h.elim
      rintro r u ⟨rfl, rfl⟩
      have hstep := circles_step hn hspc hs hcircles
      rw [if_neg hstep.1]
      exact ⟨hstep.2, rfl⟩
    · rintro fat t ⟨-, rfl⟩
      exact ⟨rfl, rfl⟩
  unfold wp at hrun
  rcases hlayout : layout sectors spc s with ⟨_ | e | _, t⟩ <;> rw [hlayout] at hrun
  · exact hrun.elim
  · obtain ⟨rfl, rfl⟩ := hrun
    rfl
  · exact hrun.elim

/-! ### The settled layout -/

lemma neededFat_settledFat {spc : ℕ} (hn : Sized sectors) (hspc : SizedBy sectors spc)
    (hs : ¬ (128 * spc + 1) ∣ sectors + spc - 24) :
    neededFat sectors spc (settledFat sectors spc) = settledFat sectors spc := by
  have hnear : Near sectors spc 4 (settledFat sectors spc) := rfl
  exact (near_step hn hspc hs hnear).resolve_right fun h => h

/-- The number of clusters behind a FAT of the settled length. -/
def settledClusters (sectors spc : ℕ) : ℕ := (sectors - (24 + settledFat sectors spc)) / spc

/-- The geometry of the settled layout. -/
def settledGeometry (sectors : ℕ) : Geometry :=
  formatGeometry sectors (settledFat sectors (clusterSectors sectors))
    (24 + settledFat sectors (clusterSectors sectors))
    (settledClusters sectors (clusterSectors sectors))

lemma reserved_settled (hn : Sized sectors) :
    reserved (settledGeometry sectors) ≤ settledClusters sectors (clusterSectors sectors) := by
  have hsmall := hn.small
  have hlarge := hn.large
  have hclusters : settledClusters sectors (clusterSectors sectors) =
      (sectors - (24 + settledFat sectors (clusterSectors sectors))) / clusterSectors sectors := rfl
  have hfat : settledFat sectors (clusterSectors sectors) =
      (sectors - 24 + 129 * clusterSectors sectors) / (128 * clusterSectors sectors + 1) := rfl
  unfold reserved bitmapLen upcaseLen clustersFor bitmapBytes settledGeometry formatGeometry
    upcaseBytes
  simp only
  rcases clusterSectors_sizes sectors with ⟨hspc, hlt⟩ | ⟨hspc, hge, hlt⟩ | ⟨hspc, hge⟩ <;>
    rw [hspc] at hclusters hfat ⊢ <;> split_ifs <;> omega

theorem planned_settled (hn : Sized sectors) (hs : Settles sectors) :
    Planned sectors (settledFat sectors (clusterSectors sectors))
      (24 + settledFat sectors (clusterSectors sectors))
      (settledClusters sectors (clusterSectors sectors)) := by
  have hsized := sizedBy_clusterSectors sectors
  have hlarge := hn.large
  have hfits := settledFat_fits hn hsized
  have hneeded := neededFat_settledFat hn hsized hs
  have hroom := reserved_settled hn
  have hle := Nat.div_mul_le_self
    (sectors - (24 + settledFat sectors (clusterSectors sectors))) (clusterSectors sectors)
  have hself := Nat.div_le_self
    (sectors - (24 + settledFat sectors (clusterSectors sectors))) (clusterSectors sectors)
  change settledClusters sectors (clusterSectors sectors) * clusterSectors sectors ≤ _ at hle
  change settledClusters sectors (clusterSectors sectors) ≤ _ at hself
  change ((settledClusters sectors (clusterSectors sectors) + 2) * 4 + 511) / 512 = _ at hneeded
  exact ⟨hn.small, hn.large, rfl, by omega, by omega, by omega, hroom⟩

end Rounds

end ExfatEmbedded.FatLength

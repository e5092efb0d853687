import VpnBot.Warp.CanonicalList

/-!
# The analysis reads the routed addresses

`collapsed_networks` is canonical, so that two lists have the same collapsed networks exactly when they cover
the same addresses (`collapsedNetworks_eq_iff`).  The holds and the address counts of `analyse_change` read
nothing else of a list, and `pure_aggregation` never hides a change of what is routed (`analysis_of_cover`).
-/

namespace VpnBot.Warp

open Py Py.Network

variable {current current' candidate candidate' : List Text}

theorem cover_collapsedNetworks (l : List Text) : cover (collapsedNetworks l) = IPv4.textCover l := by
  rw [collapsedNetworks, cover_collapse, cover_toNetworks]

/-- **The collapsed networks say which addresses are routed, and no more.** -/
theorem collapsedNetworks_eq_iff {l m : List Text} :
    collapsedNetworks l = collapsedNetworks m ↔ IPv4.textCover l = IPv4.textCover m := by
  rw [← cover_collapsedNetworks l, ← cover_collapsedNetworks m]
  constructor
  · intro h
    rw [h]
  · exact (canonical_collapse _).eq_of_cover_eq (canonical_collapse _)

theorem coverageOf_congr {l m : List Text} (h : IPv4.textCover l = IPv4.textCover m) :
    coverageOf l = coverageOf m := by
  rw [coverageOf, coverageOf, collapsedNetworks_eq_iff.mpr h]

/-- Two analyses that agree in what an unattended run decides by. -/
structure SameMeasure (analysis analysis' : ChangeAnalysis) : Prop where
  holds : analysis.holds = analysis'.holds
  before : analysis.addressesBefore = analysis'.addressesBefore
  after : analysis.addressesAfter = analysis'.addressesAfter
  space : analysis.sameSpace = analysis'.sameSpace

section Analysis

variable (sources : List SourceState) (baselines : Dict Text Coverage) (thresholds : Thresholds)

theorem sameSpace_analyseChange :
    (analyseChange current candidate sources baselines thresholds).sameSpace = true ↔
      IPv4.textCover current = IPv4.textCover candidate := by
  rw [← collapsedNetworks_eq_iff, analyseChange, decide_eq_true_iff]

theorem sameMeasure_of_cover (hcurrent : IPv4.textCover current = IPv4.textCover current')
    (hcandidate : IPv4.textCover candidate = IPv4.textCover candidate') :
    SameMeasure (analyseChange current candidate sources baselines thresholds)
      (analyseChange current' candidate' sources baselines thresholds) where
  holds := by
    simp only [analyseChange, coverageOf_congr hcandidate]
  before := congrArg Coverage.addresses (coverageOf_congr hcurrent)
  after := congrArg Coverage.addresses (coverageOf_congr hcandidate)
  space := by
    rw [Bool.eq_iff_iff, sameSpace_analyseChange, sameSpace_analyseChange, hcurrent, hcandidate]

end Analysis

/-- **The analysis depends on the routed addresses**: lists that cover the same addresses measure the same;
`same_space` says that they do; and a pure aggregation routes what was routed before. -/
theorem analysis_of_cover (current candidate : List Text) (sources : List SourceState)
    (baselines : Dict Text Coverage) (thresholds : Thresholds) :
    (∀ current' candidate', IPv4.textCover current = IPv4.textCover current' →
      IPv4.textCover candidate = IPv4.textCover candidate' →
      SameMeasure (analyseChange current candidate sources baselines thresholds)
        (analyseChange current' candidate' sources baselines thresholds)) ∧
    ((analyseChange current candidate sources baselines thresholds).sameSpace = true ↔
      IPv4.textCover current = IPv4.textCover candidate) ∧
    ((analyseChange current candidate sources baselines thresholds).pureAggregation = true →
      IPv4.textCover current = IPv4.textCover candidate) := by
  refine ⟨fun _ _ => sameMeasure_of_cover sources baselines thresholds,
    sameSpace_analyseChange sources baselines thresholds, fun hpure => ?_⟩
  rw [ChangeAnalysis.pureAggregation, Bool.and_eq_true] at hpure
  exact (sameSpace_analyseChange sources baselines thresholds).mp hpure.2

/-- Two halves and the whole measure the same. -/
example : coverageOf ["8.8.8.0/25".toList, "8.8.8.128/25".toList] = coverageOf ["8.8.8.7/24".toList] := by
  decide +kernel

end VpnBot.Warp

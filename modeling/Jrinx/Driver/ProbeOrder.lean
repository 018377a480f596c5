import Jrinx.Driver.ProbeStep
import Jrinx.Util.Stages

/-!
This module contains the order of the probes: the interrupt controllers are probed before all that is registered at
them, however the linker has put the probers and wherever the nodes are in the device tree.
-/

namespace Jrinx

variable {arch : Arch}

namespace DevProber

theorem isIntc_iff {prober : DevProber} : prober.isIntc = true ↔ prober = .intc := by
  cases prober <;> decide

theorem isPlic_iff {prober : DevProber} : prober.isPlic = true ↔ prober = .plic := by
  cases prober <;> decide

theorem isMemory_iff {prober : DevProber} : prober.isMemory = true ↔ prober = .memory := by
  cases prober <;> decide

theorem swapTo_prober {p : DevProber → Bool} {prober : DevProber} (hp : ∀ q, p q = true ↔ q = prober) {k : Nat}
    {probers : List DevProber} (hfront : ∀ i < k, ∀ q ∈ probers[i]?, q ≠ prober)
    : (prober ∈ probers →
        ∃ probers', swapTo p k probers = .next probers' ∧ probers'.Perm probers ∧
          (∀ i < k, probers'[i]? = probers[i]?) ∧ probers'[k]? = some prober) ∧
      (prober ∉ probers → swapTo p k probers = .panic) := by
  constructor
  . intro hmem
    have hfalse : ∀ i < k, ∀ q ∈ probers[i]?, p q = false := by
      intro i hi q hq
      rw [Bool.eq_false_iff, ne_eq, hp]
      exact hfront i hi q hq
    obtain ⟨probers', hswap, h⟩ := swapTo_next hfalse ⟨prober, hmem, (hp prober).mpr rfl⟩
    obtain ⟨q, hq, hpq⟩ := h.found
    rw [(hp q).mp hpq] at hq
    exact ⟨probers', hswap, h.perm, h.front, hq⟩
  . intro hmem
    apply swapTo_panic
    intro q hq
    rw [Bool.eq_false_iff, ne_eq, hp]
    rintro rfl
    exact hmem hq

theorem eq_cons_of_front {probers : List DevProber} (h₀ : probers[0]? = some .intc)
    (h₁ : probers[1]? = some .plic) (h₂ : probers[2]? = some .memory)
    : ∃ rest, probers = .intc :: .plic :: .memory :: rest := by
  match probers, h₀, h₁, h₂ with
  | _ :: _ :: _ :: rest, rfl, rfl, rfl => exact ⟨rest, rfl⟩

theorem arrange_next_iff (probers : List DevProber)
    : (.intc ∈ probers ∧ .plic ∈ probers ∧ .memory ∈ probers →
        ∃ rest, arrange probers = .next (.intc :: .plic :: .memory :: rest) ∧
          (DevProber.intc :: .plic :: .memory :: rest).Perm probers) ∧
      (¬ (.intc ∈ probers ∧ .plic ∈ probers ∧ .memory ∈ probers) → arrange probers = .panic) := by
  have hfront : ∀ i < 0, ∀ q ∈ probers[i]?, q ≠ .intc := by simp
  have hfirst := swapTo_prober (fun _ => isIntc_iff) hfront
  rw [arrange]
  by_cases hintc : .intc ∈ probers
  . obtain ⟨probers₁, hswap₁, hperm₁, _, hintc₁⟩ := hfirst.1 hintc
    have hfront₁ : ∀ i < 1, ∀ q ∈ probers₁[i]?, q ≠ .plic := by
      intro i hi q hq
      obtain rfl : i = 0 := by omega
      rw [hintc₁] at hq
      cases hq
      decide
    have hsecond := swapTo_prober (fun _ => isPlic_iff) hfront₁
    rw [hperm₁.mem_iff] at hsecond
    rw [hswap₁]
    dsimp only
    by_cases hplic : .plic ∈ probers
    . obtain ⟨probers₂, hswap₂, hperm₂, hsame₂, hplic₂⟩ := hsecond.1 hplic
      have hintc₂ := (hsame₂ 0 (by decide)).trans hintc₁
      have hfront₂ : ∀ i < 2, ∀ q ∈ probers₂[i]?, q ≠ .memory := by
        intro i hi q hq
        obtain rfl | rfl : i = 0 ∨ i = 1 := by omega
        . rw [hintc₂] at hq
          cases hq
          decide
        . rw [hplic₂] at hq
          cases hq
          decide
      have hthird := swapTo_prober (fun _ => isMemory_iff) hfront₂
      rw [(hperm₂.trans hperm₁).mem_iff] at hthird
      rw [hswap₂]
      dsimp only
      by_cases hmemory : .memory ∈ probers
      . obtain ⟨probers₃, hswap₃, hperm₃, hsame₃, hmemory₃⟩ := hthird.1 hmemory
        obtain ⟨rest, rfl⟩ := eq_cons_of_front ((hsame₃ 0 (by decide)).trans hintc₂)
          ((hsame₃ 1 (by decide)).trans hplic₂) hmemory₃
        exact ⟨fun _ => ⟨rest, hswap₃, hperm₃.trans (hperm₂.trans hperm₁)⟩,
          fun h => absurd ⟨hintc, hplic, hmemory⟩ h⟩
      . exact ⟨fun h => absurd h.2.2 hmemory, fun _ => hthird.2 hmemory⟩
    . rw [hsecond.2 hplic]
      exact ⟨fun h => absurd h.2.1 hplic, fun _ => rfl⟩
  . rw [hfirst.2 hintc]
    exact ⟨fun h => absurd h.1 hintc, fun _ => rfl⟩

end DevProber

namespace DevProber

-- What the probes find at each other are the handles of the controllers.
def stages (arch : Arch) (nodes : List FdtNode) : Stages (DevProber × FdtNode) Nat where
  Needs handles a := a.1.Needs arch nodes handles a.2
  adds a := a.1.adds a.2

def frames (arch : Arch) (as : List (DevProber × FdtNode)) : Nat :=
  (as.map fun a => (a.1.addrs a.2).length * PageTable.depth arch).sum

def pairs (probers : List DevProber) (nodes : List FdtNode) : List (DevProber × FdtNode) :=
  probers.flatMap fun prober => (nodes.filter prober.matches).map (prober, ·)

variable {probers rest : List DevProber} {nodes : List FdtNode} {a : DevProber × FdtNode}

theorem mem_pairs : a ∈ pairs probers nodes ↔ a.1 ∈ probers ∧ a.2 ∈ nodes ∧ a.1.matches a.2 = true := by
  obtain ⟨prober, node⟩ := a
  simp only [pairs, List.mem_flatMap, List.mem_map, List.mem_filter, Prod.mk.injEq]
  constructor
  . rintro ⟨_, hprober, _, hnode, rfl, rfl⟩
    exact ⟨hprober, hnode⟩
  . rintro ⟨hprober, hnode⟩
    exact ⟨prober, hprober, node, hnode, rfl, rfl⟩

theorem pairs_append (probers : List DevProber)
    : pairs (probers ++ rest) nodes = pairs probers nodes ++ pairs rest nodes :=
  List.flatMap_append

theorem pairs_three
    : pairs (.intc :: .plic :: .memory :: rest) nodes =
        pairs [.intc, .plic, .memory] nodes ++ pairs rest nodes :=
  pairs_append [.intc, .plic, .memory]

theorem three_of_mem_pairs (ha : a ∈ pairs [.intc, .plic, .memory] nodes)
    : a.1 = .intc ∨ a.1 = .plic ∨ a.1 = .memory := by
  simpa using (mem_pairs.mp ha).1

theorem ne_plic_of_mem_pairs (hnodup : (DevProber.intc :: .plic :: .memory :: rest).Nodup)
    (ha : a ∈ pairs rest nodes)
    : a.1 ≠ .plic := by
  intro hplic
  have hmem := (mem_pairs.mp ha).1
  rw [hplic] at hmem
  simp only [List.nodup_cons, List.mem_cons] at hnodup
  exact hnodup.2.1 (Or.inr hmem)

theorem pairs_filter {prober : DevProber} (hnodup : probers.Nodup) (hmem : prober ∈ probers)
    : (pairs probers nodes).filter (fun a => a.1 = prober) = (nodes.filter prober.matches).map (prober, ·) := by
  induction probers with
  | nil => simp at hmem
  | cons first probers ih =>
    rw [List.nodup_cons] at hnodup
    have hpairs : pairs (first :: probers) nodes =
        (nodes.filter first.matches).map (first, ·) ++ pairs probers nodes :=
      rfl
    rw [hpairs, List.filter_append]
    by_cases hfirst : first = prober
    . have hothers : (pairs probers nodes).filter (fun a => a.1 = prober) = [] := by
        rw [List.filter_eq_nil_iff]
        intro a ha
        rw [decide_eq_true_eq]
        rintro rfl
        exact hnodup.1 (hfirst ▸ (mem_pairs.mp ha).1)
      rw [hothers, List.append_nil, hfirst, List.filter_map]
      simp [Function.comp_def]
    . rw [ih hnodup.2 ((List.mem_cons.mp hmem).resolve_left (Ne.symm hfirst)), List.filter_map]
      simp [Function.comp_def, hfirst]

theorem mem_pairs_perm {probers' : List DevProber} (h : probers'.Perm probers)
    : a ∈ pairs probers' nodes ↔ a ∈ pairs probers nodes := by
  rw [mem_pairs, mem_pairs, h.mem_iff]

theorem frames_pairs_perm {probers' : List DevProber} (h : probers'.Perm probers)
    : frames arch (pairs probers' nodes) = frames arch (pairs probers nodes) :=
  ((h.flatMap_right _).map _).sum_eq

def plicHandles (nodes : List FdtNode) : Set Nat :=
  {phandle | ∃ node ∈ nodes, DevProber.plic.matches node = true ∧ node.phandle = .value phandle}

theorem added_pairs (hplic : .plic ∈ probers)
    : (stages arch nodes).added (pairs probers nodes) = plicHandles nodes := by
  ext phandle
  constructor
  . rintro ⟨⟨prober, node⟩, hmem, hprober, hphandle⟩
    obtain rfl : prober = .plic := hprober
    obtain ⟨_, hnode, hmatches⟩ := mem_pairs.mp hmem
    exact ⟨node, hnode, hmatches, hphandle⟩
  . rintro ⟨node, hnode, hmatches, hphandle⟩
    exact ⟨(.plic, node), mem_pairs.mpr ⟨hplic, hnode, hmatches⟩, rfl, hphandle⟩

theorem ready_pairs (hnodup : (DevProber.intc :: .plic :: .memory :: rest).Nodup) {found : Set Nat}
    : (stages arch nodes).Ready found (pairs (.intc :: .plic :: .memory :: rest) nodes) ↔
        ∀ a ∈ pairs (.intc :: .plic :: .memory :: rest) nodes, a.1.Needs arch nodes (found ∪ plicHandles nodes) a.2 := by
  have hadded : (stages arch nodes).added (pairs (.intc :: .plic :: .memory :: rest) nodes) = plicHandles nodes :=
    added_pairs (by simp)
  rw [← hadded, pairs_three]
  apply Stages.ready_stages
  . rintro ⟨prober, node⟩ ha now now' hneeds
    obtain rfl | rfl | rfl := three_of_mem_pairs ha
    . exact hneeds
    . exact hneeds
    . exact hneeds
  . intro a ha
    exact adds_of_ne (ne_plic_of_mem_pairs hnodup ha)

end DevProber

theorem probeAllDevice_ne_disabled (sort : SortUnstable (@ExclusiveIntervals.byPosAndDelta arch.bits))
    (kernelEnd : VirtAddr arch) (probers : List DevProber) (nodes : List FdtNode) (s : DevState arch)
    : probeAllDevice sort kernelEnd probers nodes s ≠ .disabled := by
  have harrange := DevProber.arrange_next_iff probers
  rw [probeAllDevice]
  by_cases hmem : .intc ∈ probers ∧ .plic ∈ probers ∧ .memory ∈ probers
  . obtain ⟨rest, hnext, _⟩ := harrange.1 hmem
    rw [hnext]
    exact exec_ne_disabled (fun s _ => exec_ne_disabled (fun s _ => s.probe_ne_disabled _) _) _
  . rw [harrange.2 hmem]
    simp

end Jrinx

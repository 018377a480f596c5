import Jrinx.Paging.Addr

/-!
This module contains the nodes of the device tree that `kern/src/arch/riscv/cpus.rs` reads: which of
them are CPUs, which of these are valid, and the hart that is started for one of them.

The unit address of a node is hexadecimal, `start` parses it as a decimal number.
-/

namespace Jrinx

variable {arch : Arch}

structure CpuNode where
  name : List Char
  -- The property `status`, and its text if it is one.
  status : Option (Option (List Char))
  deriving DecidableEq, Repr

namespace CpuNode

def isCpu (node : CpuNode) : Bool :=
  node.name == ['c', 'p', 'u'] || ['c', 'p', 'u', '@'].isPrefixOf node.name

def isValidCpu (node : CpuNode) : Bool :=
  node.isCpu &&
    !node.status.any (fun prop => prop.any (fun status => status != ['o', 'k', 'a', 'y']))

end CpuNode

-- The digits from left to right, the number has to fit into a `usize`.
def parseUsize.go (arch : Arch) (acc : Nat) (digits : List Char) : Option Nat :=
  match digits with
  | [] => some acc
  | d :: digits =>
    if d.isDigit then
      let acc := acc * 10 + (d.toNat - '0'.toNat)
      if acc < 2 ^ arch.bits then go arch acc digits else none
    else
      none

-- `str::parse::<usize>`
def parseUsize (arch : Arch) (s : List Char) : Option Nat :=
  match s with
  | [] => none
  | ['+'] => none
  | '+' :: digits => parseUsize.go arch 0 digits
  | digits => parseUsize.go arch 0 digits

-- The hart that `start` takes a node for: there is none if the node is skipped or if the parse fails.
inductive HartOf where
  | hart (id : Nat)
  | continue
  | parseError
  deriving DecidableEq, Repr

def CpuNode.hartOf (arch : Arch) (node : CpuNode) : HartOf :=
  if node.name = ['c', 'p', 'u'] then
    .hart 0
  else if ['c', 'p', 'u', '@'].isPrefixOf node.name then
    match parseUsize arch (node.name.drop 4) with
    | some id => .hart id
    | none => .parseError
  else
    .continue

theorem CpuNode.hartOf_ne_continue {node : CpuNode} (h : node.isValidCpu = true)
    : node.hartOf arch ≠ .continue := by
  simp only [isValidCpu, isCpu, Bool.and_eq_true, Bool.or_eq_true, beq_iff_eq] at h
  unfold hartOf
  rcases h.1 with hname | hname
  . simp [hname]
  . split
    . simp
    . split <;> simp

theorem parseUsize.go_append (acc : Nat) (s t : List Char)
    : go arch acc (s ++ t) = (go arch acc s).bind (fun acc => go arch acc t) := by
  induction s generalizing acc with
  | nil => rfl
  | cons d s ih =>
    simp only [List.cons_append, go]
    split
    . split
      . exact ih _
      . rfl
    . rfl

theorem isDigit_digitChar_of_lt {d : Nat} (h : d < 10)
    : d.digitChar.isDigit = true ∧ d.digitChar.toNat - '0'.toNat = d := by
  interval_cases d <;> decide

theorem not_isDigit_digitChar {d : Nat} (hle : 10 ≤ d) (hlt : d < 16) : d.digitChar.isDigit = false := by
  interval_cases d <;> decide

theorem parseUsize.go_digitChar {acc d : Nat} (h : d < 16)
    : go arch acc [d.digitChar] =
        if d < 10 ∧ acc * 10 + d < 2 ^ arch.bits then some (acc * 10 + d) else none := by
  by_cases hd : d < 10
  . obtain ⟨hdigit, hval⟩ := isDigit_digitChar_of_lt hd
    simp only [go, hdigit, if_true, hval, hd, true_and]
  . simp only [go, not_isDigit_digitChar (by omega) h, Bool.false_eq_true, if_false, hd, false_and]

theorem parseUsize.go_toDigits {n v : Nat} (h : go arch 0 (Nat.toDigits 16 n) = some v)
    : if n < 10 then v = n else v < n := by
  induction n using Nat.strongRecOn generalizing v with
  | ind n ih =>
    by_cases hn : n < 16
    . rw [Nat.toDigits_of_lt_base hn, go_digitChar hn] at h
      by_cases hd : n < 10
      . rw [if_pos hd]
        split at h <;> simp at h
        omega
      . simp [hd] at h
    . rw [Nat.toDigits_of_base_le (by decide) (by omega), go_append] at h
      obtain ⟨u, hu, hv⟩ := Option.bind_eq_some_iff.mp h
      have hle : u ≤ n / 16 := by
        have := ih (n / 16) (by omega) hu
        split at this <;> omega
      rw [go_digitChar (by omega)] at hv
      rw [if_neg (by omega)]
      split at hv <;> simp at hv
      omega

theorem parseUsize_of_ne_plus {c : Char} {s : List Char} (h : c ≠ '+')
    : parseUsize arch (c :: s) = parseUsize.go arch 0 (c :: s) := by
  unfold parseUsize
  split
  . simp_all
  . simp_all
  . simp_all
  . rfl

theorem digitChar_ne_plus {d : Nat} (h : d < 16) : d.digitChar ≠ '+' := by
  interval_cases d <;> decide

theorem exists_toDigits_eq_cons (n : Nat)
    : ∃ d < 16, ∃ s, Nat.toDigits 16 n = d.digitChar :: s := by
  induction n using Nat.strongRecOn with
  | ind n ih =>
    by_cases hn : n < 16
    . exact ⟨n, hn, [], Nat.toDigits_of_lt_base hn⟩
    . obtain ⟨d, hd, s, hs⟩ := ih (n / 16) (by omega)
      exact ⟨d, hd, s ++ [(n % 16).digitChar], by
        rw [Nat.toDigits_of_base_le (by decide) (by omega), hs, List.cons_append]⟩

theorem parseUsize_toDigits (n : Nat)
    : parseUsize arch (Nat.toDigits 16 n) = parseUsize.go arch 0 (Nat.toDigits 16 n) := by
  obtain ⟨d, hd, s, hs⟩ := exists_toDigits_eq_cons n
  rw [hs, parseUsize_of_ne_plus (digitChar_ne_plus hd)]

def CpuNode.ofHart (id : Nat) : CpuNode where
  name := ['c', 'p', 'u', '@'] ++ Nat.toDigits 16 id
  status := none

theorem CpuNode.hartOf_ofHart_iff {id : Nat} : (ofHart id).hartOf arch = .hart id ↔ id < 10 := by
  have hparse : (ofHart id).hartOf arch =
      match parseUsize.go arch 0 (Nat.toDigits 16 id) with
      | some id => .hart id
      | none => .parseError := by
    rw [← parseUsize_toDigits]
    simp [hartOf, ofHart]
  rw [hparse]
  constructor
  . intro h
    split at h
    next v hv =>
      cases h
      have := parseUsize.go_toDigits hv
      split at this <;> omega
    next => simp at h
  . intro h
    have hbits : 10 ≤ 2 ^ arch.bits := by cases arch <;> decide
    rw [Nat.toDigits_of_lt_base (by omega), parseUsize.go_digitChar (by omega),
      if_pos ⟨h, by omega⟩]
    simp

end Jrinx

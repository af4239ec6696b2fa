import WebTester.CString
import WebTester.Paths

/-!
# The configuration file of LRVM

LRVM and `lrvm_kill` run with the rights of their owner, so a configuration file may only be named
if it is in `/etc` or in the home directory of the server. What is compared is the beginning of
the text. `home` stands for `HOME_DIRECTORY`, which the build defines.
-/
namespace WebTester.ConfigPath
open CString Paths

/-- The size of `config_file`, with its final NUL. -/
def configFileSize : ℕ := 4096

/-- `config_allowed_prefixes`. -/
def configAllowedPrefixes (home : CStr) : List CStr := ["/etc".toList, home]

/-- The loop over `config_allowed_prefixes`. A text that does not fit into `config_file` has no
defined effect. -/
def configAllowed (home file : CStr) : Option Bool :=
  if file.length < configFileSize then
    some ((configAllowedPrefixes home).any fun p => p.isPrefixOf file)
  else none

/-- The check in `main` of LRVM. -/
def lrvmConfigAllowed (home file : CStr) : Option Bool := configAllowed home file

/-- The check in `main` of `lrvm_kill`. -/
def lrvmKillConfigAllowed (home file : CStr) : Option Bool := configAllowed home file

/-- The file is in one of the directories. -/
def Inside (home file : CStr) : Prop :=
  file.head? = some '/' ∧
    ∃ d ∈ configAllowedPrefixes home, resolve (parts d) <+: resolve (parts file)

/-- Both checks are made and accept nothing else. -/
structure Confined (home file : CStr) : Prop where
  lrvm : ∃ b, lrvmConfigAllowed home file = some b ∧ (b = true → Inside home file)
  kill : ∃ b, lrvmKillConfigAllowed home file = some b ∧ (b = true → Inside home file)

/-- Some of the first parts of the text name one of the directories, and what comes then never has
more steps to the parent than names. -/
def Enclosed (home file : CStr) : Prop :=
  ∃ d ∈ configAllowedPrefixes home, ∃ a b, parts file = a ++ b ∧
    resolve a = resolve (parts d) ∧ Stays b

variable {home file : CStr}

lemma configAllowed_eq_true :
    configAllowed home file = some true ↔
      file.length < configFileSize ∧ ∃ d ∈ configAllowedPrefixes home, d <+: file := by
  simp [configAllowed]

/-- With an absolute home directory only absolute texts are accepted. -/
lemma head_eq_slash {d : CStr} (hhome : home.head? = some '/')
    (hd : d ∈ configAllowedPrefixes home) (h : d <+: file) : file.head? = some '/' := by
  have habs : d.head? = some '/' := by
    simp only [configAllowedPrefixes, List.mem_cons, List.not_mem_nil, or_false] at hd
    rcases hd with rfl | rfl
    · rfl
    · exact hhome
  obtain ⟨rest, rfl⟩ := h
  rw [List.head?_append, habs]
  rfl

lemma inside_iff_enclosed (h : file.head? = some '/') : Inside home file ↔ Enclosed home file := by
  unfold Inside Enclosed
  simp only [h, true_and, prefix_resolve_iff]

lemma checked_iff (hhome : home.head? = some '/') :
    (∃ b, configAllowed home file = some b ∧ (b = true → Inside home file)) ↔
      file.length < configFileSize ∧
        ((∀ d ∈ configAllowedPrefixes home, ¬ d <+: file) ∨ Enclosed home file) := by
  constructor
  · rintro ⟨b, hb, hinside⟩
    have hlength : file.length < configFileSize := by
      by_contra hlong
      rw [configAllowed, if_neg hlong] at hb
      cases hb
    refine ⟨hlength, ?_⟩
    by_cases hprefix : ∃ d ∈ configAllowedPrefixes home, d <+: file
    · have htrue := configAllowed_eq_true.2 ⟨hlength, hprefix⟩
      obtain rfl : b = true := Option.some.inj (hb.symm.trans htrue)
      obtain ⟨d, hd, hpre⟩ := hprefix
      exact .inr ((inside_iff_enclosed (head_eq_slash hhome hd hpre)).1 (hinside rfl))
    · left
      intro d hd hpre
      exact hprefix ⟨d, hd, hpre⟩
  · rintro ⟨hlength, h⟩
    refine ⟨_, if_pos hlength, fun htrue => ?_⟩
    have hallowed : configAllowed home file = some true :=
      (if_pos hlength).trans (congrArg some htrue)
    obtain ⟨-, d, hd, hpre⟩ := configAllowed_eq_true.1 hallowed
    have henclosed := h.resolve_left fun hnone => hnone d hd hpre
    exact (inside_iff_enclosed (head_eq_slash hhome hd hpre)).2 henclosed

/-- The checks do what they are for exactly when the text fits, and begins with neither of the
directories or enters one of them and stays there. -/
theorem confined_iff (hhome : home.head? = some '/') :
    Confined home file ↔ file.length < configFileSize ∧
      ((∀ d ∈ configAllowedPrefixes home, ¬ d <+: file) ∨ Enclosed home file) := by
  constructor
  · intro h
    exact (checked_iff hhome).1 h.lrvm
  · intro h
    exact ⟨(checked_iff hhome).2 h, (checked_iff hhome).2 h⟩

theorem confined_iff_etc : Confined "/home/webtester".toList "/etc/./lrvm/../lrvm.conf".toList := by
  have hstays : Stays [Part.name "lrvm".toList, .parent, .name "lrvm.conf".toList] := by
    have hlist : [Part.name "lrvm".toList, .parent, .name "lrvm.conf".toList] =
        [] ++ [.name "lrvm".toList] ++ [.parent] ++ [.name "lrvm.conf".toList] := rfl
    rw [hlist, Stays.concat_iff, Stays.concat_iff, Stays.concat_iff]
    exact ⟨⟨⟨stays_nil, by decide⟩, by decide⟩, by decide⟩
  refine (confined_iff (by decide)).2 ⟨by decide, .inr ⟨"/etc".toList, by decide, ?_⟩⟩
  exact ⟨[.name "etc".toList], _, by decide, by decide, hstays⟩

/-- A name that only begins as the directory does, and one that leaves the directory again. -/
theorem strange_config_files_accepted :
    lrvmConfigAllowed "/home/webtester".toList "/etcetera/lrvm.conf".toList = some true ∧
      ¬ Inside "/home/webtester".toList "/etcetera/lrvm.conf".toList ∧
      lrvmConfigAllowed "/home/webtester".toList "/etc/../tmp/lrvm.conf".toList = some true ∧
      ¬ Inside "/home/webtester".toList "/etc/../tmp/lrvm.conf".toList := by
  unfold Inside
  decide

end WebTester.ConfigPath

import Mathlib.Data.List.DropRight
import Telemetry.Config.Server
import Telemetry.Proofs.Text.Split

/-!
What is told of a database URL. The scheme, the user and the host stay and the password is left out, whatever
is in it: no separator inside a password moves a cut, so the text that is logged is the same for all of them.
-/
namespace Telemetry
namespace ServerSettings

def loginUrl (scheme user password rest : String) : String :=
  scheme ++ "://" ++ user ++ ":" ++ password ++ "@" ++ rest

/-- What follows the last at sign of a text, which is all of it if there is none. -/
def hostOf (rest : String) : String := String.ofList (rest.toList.rtakeWhile (· != '@'))

section
variable {scheme user rest : String}

theorem at_not_mem_hostOf : '@' ∉ (hostOf rest).toList := by
  intro hat
  rw [hostOf, String.toList_ofList] at hat
  have hne := List.mem_rtakeWhile_imp (p := (· != '@')) hat
  simp at hne

/-- Of a text behind an at sign, what follows the last at sign is the host of the text. By induction from the
end of the text. -/
theorem exists_front (cs : List Char) :
    ∃ front, '@' :: cs = front ++ '@' :: cs.rtakeWhile (· != '@') := by
  induction cs using List.reverseRecOn with
  | nil => exact ⟨[], rfl⟩
  | append_singleton cs c ih =>
    by_cases hc : c = '@'
    · rw [List.rtakeWhile_concat_neg _ _ _ (by simpa using hc)]
      exact ⟨'@' :: cs, by simp [hc]⟩
    · obtain ⟨front, hfront⟩ := ih
      rw [List.rtakeWhile_concat_pos _ _ _ (by simpa using hc)]
      exact ⟨front, by rw [← List.cons_append, hfront, List.append_assoc, List.cons_append]⟩

theorem mark_only_behind_scheme (h : ¬ "://".toList <:+: scheme.toList) :
    ¬ "://".toList <:+: scheme.toList ++ "://".toList.dropLast := by
  have hparts : scheme.toList ++ "://".toList.dropLast = scheme.toList ++ [':'] ++ ['/'] := by simp
  rw [hparts, List.infix_concat_iff, List.infix_concat_iff]
  rintro (⟨front, hfront⟩ | ⟨front, hfront⟩ | hinfix)
  · have hlast := congrArg (fun cs => cs.reverse.take 2) hfront
    simp at hlast
  · have hlast := congrArg (fun cs => cs.reverse.take 1) hfront
    simp at hlast
  · exact h hinfix

/-- What is told of a URL has three stars in the place of the password, and of what follows the password
only the host: it is the same for every password. -/
theorem redact_hides_password (hscheme : ¬ "://".toList <:+: scheme.toList) (huser : ':' ∉ user.toList)
    (rest password : String) : redact (loginUrl scheme user password rest) =
      scheme ++ "://" ++ user ++ ":***@" ++ hostOf rest := by
  obtain ⟨front, hfront⟩ := exists_front rest.toList
  have hurl : (loginUrl scheme user password rest).toList = scheme.toList ++ "://".toList ++
      (user.toList ++ ':' :: (password.toList ++ front) ++ '@' :: (hostOf rest).toList) := by
    simp [loginUrl, hostOf, ← hfront]
  rw [redact, hurl, Text.splitAtText?_append (by simp) (mark_only_behind_scheme hscheme)]
  simp only [Text.splitLast?_append at_not_mem_hostOf, Text.splitFirst?_append huser]
  rw [← String.toList_inj]
  simp

/-- A password with all the separators in it is no more told than an empty one. -/
theorem redact_hides_password_separators :
    ¬ "://".toList <:+: "postgres".toList ∧ ':' ∉ "ops@eu".toList ∧
      redact (loginUrl "postgres" "ops@eu" "" "db@host/metrics") =
        "postgres://ops@eu:***@host/metrics" ∧
      redact (loginUrl "postgres" "ops@eu" "p:a@s://s" "db@host/metrics") =
        "postgres://ops@eu:***@host/metrics" := by
  have hscheme : ¬ "://".toList <:+: "postgres".toList := by decide +kernel
  have huser : ':' ∉ "ops@eu".toList := by decide +kernel
  have htold : "postgres" ++ "://" ++ "ops@eu" ++ ":***@" ++ hostOf "db@host/metrics" =
      "postgres://ops@eu:***@host/metrics" := by decide +kernel
  have hany := redact_hides_password hscheme huser "db@host/metrics"
  exact ⟨hscheme, huser, (hany "").trans htold, (hany "p:a@s://s").trans htold⟩

end
end ServerSettings
end Telemetry

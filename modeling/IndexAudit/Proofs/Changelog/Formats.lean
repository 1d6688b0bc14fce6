import IndexAudit.Proofs.Changelog.XmlOutline
import IndexAudit.Proofs.Changelog.YamlOutline

/-! A changelog declares the same in each of the formats that it may be written in. -/

namespace IndexAudit

namespace Outline

/--
Both ways to write a changelog declare what is meant, and so the same.

In YAML each text is searched for SQL, in XML only what stands between tags. Thus no other text may
be SQL that defines an index.
-/
theorem scanChangelog?_documents {log : List Outline} {file : String}
    (silent : ∀ word ∈ wordsOf log, IndexStatement.scan word.toList file = []) :
    (yamlDocument log).scanChangelog? file = some (.ofItems file (itemsOf log)) ∧
      (xmlDocument log).scanChangelog? file = (yamlDocument log).scanChangelog? file := by
  have yaml : (yamlDocument log).scanChangelog? file = some (.ofItems file (itemsOf log)) := by
    simp [YamlValue.scanChangelog?, yamlDocument, YamlValue.changelogItems,
      ofItems_toYamlList log silent]
  have xml : (xmlDocument log).scanChangelog? file = some (.ofItems file (itemsOf log)) := by
    -- The root is no change, so only its empty text is in front of the items.
    have items : (xmlDocument log).changelogItems =
        .text "" :: XmlElement.itemsOfElements (toXmlList log) :=
      changelogItems_element (by decide) none rfl
    have root : (xmlDocument log).name = "databaseChangeLog" := rfl
    rw [XmlElement.scanChangelog?, if_pos root, items]
    exact congrArg some
      (@ofItems_append _ [.text ""] [] _ _ (ofItems_blank (by simp)) (ofItems_toXmlList log))
  exact ⟨yaml, xml.trans yaml.symm⟩

/-- A changelog with quoted names, a nested change set, SQL, and a change that is undone. -/
def ordersLog : List Outline :=
  [.reference .includeAll (some "more/") (some (.text " TRUE ")),
    .changeSet (some "1") (some "dev")
      [.createIndex (some "\x22users\x22") none (some (.truth true))
        [⟨some "\x60email\x60", none, none, true⟩, ⟨none, none, none, true⟩,
          ⟨some "id", none, none, false⟩],
        .changeSet (some "2") none
          [.createTable (some "orders")
            [⟨some "id", some "bigint",
              some ⟨some (.truth true), some (.text "true"), none, none⟩, true⟩]],
        .sql "CREATE INDEX ix ON orders (code)",
        .rollback "CREATE INDEX old ON orders (id)" [.sql "CREATE INDEX older ON orders (id)"]]]

/-- In both formats the columns and references are found in order, and nothing that is undone. -/
theorem scanChangelog?_documents_orders :
    (∀ word ∈ wordsOf ordersLog, IndexStatement.scan word.toList "log" = []) ∧
      (yamlDocument ordersLog).scanChangelog? "log" = some
        ⟨[⟨"users", "email", "users_email_id_idx", "log", true, false, 0⟩,
          ⟨"users", "id", "users_email_id_idx", "log", true, false, 2⟩,
          ⟨"orders", "id", "orders_pkey", "log", true, false, 0⟩,
          ⟨"orders", "code", "ix", "log", false, false, 0⟩], [⟨.includeAll, "more/", true⟩]⟩ ∧
      (xmlDocument ordersLog).scanChangelog? "log" =
        (yamlDocument ordersLog).scanChangelog? "log" := by
  -- No word of the log defines an index, so both documents can be read.
  have silent : ∀ word ∈ wordsOf ordersLog, IndexStatement.scan word.toList "log" = [] := by
    decide +kernel
  obtain ⟨yaml, xml⟩ := scanChangelog?_documents silent
  exact ⟨silent, yaml.trans (by decide +kernel), xml⟩

end Outline

end IndexAudit

import IndexAudit.Changelog.OfXml
import IndexAudit.Changelog.OfYaml
import IndexAudit.Files.Path
import IndexAudit.Json.Document
import IndexAudit.Yaml.Document
import IndexAudit.Yaml.OfJson

/-! What a changelog file declares, read as the ending of its name says. -/

namespace IndexAudit

namespace Changelog

/-- The document of a changelog in YAML or JSON. -/
def document? (file : String) (text : List Char) : Option YamlValue :=
  if Path.hasExtension file ["json"] then
    (JsonValue.ofText? text).bind YamlValue.ofJsonDocument?
  else YamlValue.ofText? text

/-- What a changelog in YAML or JSON declares, if the text is one. -/
def scanDocument? (file : String) (text : List Char) : Option Scanned :=
  (document? file text).bind (YamlValue.scanChangelog? file)

/-- What a changelog in XML declares, if the text is one. -/
def scanXml? (file : String) (text : List Char) : Option Scanned :=
  (XmlElement.ofText? text).bind (XmlElement.scanChangelog? file)

/-- What a changelog declares, in the format that the ending of its name says. -/
def scan? (file : String) (text : List Char) : Option Scanned :=
  if Path.hasExtension file ["sql"] then some ⟨IndexStatement.scan text file, []⟩
  else if Path.hasExtension file ["xml"] then scanXml? file text
  else scanDocument? file text

end Changelog

end IndexAudit

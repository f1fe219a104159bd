import Extraction.Config.Basic
import Extraction.Tree

/-! # Configurations as trees

Fields stand in a fixed order. An absent address or timeout and an empty list
of parameters are left out; everything else is written.
-/

namespace Extraction

def MethodEntry.toTree (m : MethodEntry) : Tree :=
  .fields ([("Name", .text m.name), ("Schema", .text m.schema)] ++
    Tree.optional "Url" (m.url.map .text))

def ExtractorEntry.toTree (e : ExtractorEntry) : Tree :=
  .fields ([("Name", .text e.name), ("GithubOrg", .text e.organization),
      ("GithubProject", .text e.project), ("Version", .text e.version),
      ("Executable", .text e.executable), ("Checksum", .text e.checksum),
      ("ChecksumAlg", .text e.checksumAlgorithm),
      ("CommandLineTemplate", .text e.commandLineTemplate)] ++
    Tree.optional "AdditionalParameters"
      (if e.additionalParameters.isEmpty then none
        else some (.list (e.additionalParameters.map .text))) ++
    [("Methods", .list (e.methods.map MethodEntry.toTree))])

def Config.toTree (c : Config) : Tree :=
  .fields ([("Extractors", .list (c.extractors.map ExtractorEntry.toTree)),
      ("InstallationPath", .text c.installationPath),
      ("SchemasLocation", .text c.schemasLocation),
      ("DownloadMissingExtractors", .flag c.downloadMissingExtractors),
      ("DownloadSchemas", .flag c.downloadSchemas)] ++
    Tree.optional "Timeout" (c.timeout.map .natural))

end Extraction
